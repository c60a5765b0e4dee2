import IyaSts.Krb5PacClaimsWithin

namespace IyaSts.Krb5PacClaims

/-!
# Delegation information that is read back

A target and transited services are strings, each a header first and its code
units later.  The reader leaves the padding at the end unread.
-/

open CursorCodec
open Krb5Ndr

/-- What reading a string that may be absent comes to. -/
def optionalAnswer : Option Text → Option (Option Text)
  | none => some none
  | some s => (stringAnswer s).map some

variable (value : Option Text) (services : List (Option Text)) (spec : DelegationSpec)

theorem writeUnicodeStringValue_optional_reads :
    Reads (writeUnicodeStringValue value)
    (readUnicodeStringValue (headerOf value).present)
    (optionalAnswer value) := by
  cases value with
  | none => exact Answers.pure none
  | some s => exact writeUnicodeStringValue_reads s

theorem writeUnicodeStringHeader_grows (w : Writer) :
    w.bytes.length + 1 ≤ (writeUnicodeStringHeader value w).bytes.length :=
  (u16_grows _ w).trans (((u16_extends _).andThen (pointer_extends value.isSome)) _).length_le

/-- What reading the transited services comes to. -/
def servicesAnswer (services : List (Option Text)) : Option (List (Option Text)) :=
  if maxArrayElements < services.length then
    none
  else
    services.mapM optionalAnswer

/-- The services of a list that has some. -/
def writeDeclaredServices (services : List (Option Text)) (w : Writer) : Writer :=
  ((w.u32 services.length).each services writeUnicodeStringHeader).each
    services writeUnicodeStringValue

theorem writeDeclaredServices_extends :
    Extends (writeDeclaredServices services) :=
  ((u32_extends _).andThen
    (each_extends fun name _ => writeUnicodeStringHeader_extends name)).andThen
      (each_extends fun name _ => writeUnicodeStringValue_extends name)

/-- As many headers as are counted, then the code units of each. -/
theorem writeDeclaredServices_reads :
    Reads (writeDeclaredServices services)
    (readDeclaredServices (services.length % 2 ^ 32))
    (servicesAnswer services) := by
  refine Answers.of_short (writeDeclaredServices_extends services) fun w short => ?_
  have headersExtend :
      Extends (fun w => w.each services writeUnicodeStringHeader) :=
    each_extends fun name _ => writeUnicodeStringHeader_extends name
  have valuesExtend :
      Extends (fun w => w.each services writeUnicodeStringValue) :=
    each_extends fun name _ => writeUnicodeStringValue_extends name
  have isWord : services.length < 2 ^ 32 := by
    have total := length_added (writeDeclaredServices_extends services) w
    have counted := u32_grows services.length w
    have headers := each_grows writeUnicodeStringHeader_grows services (w.u32 services.length)
    have values :
        ((w.u32 services.length).each services
            writeUnicodeStringHeader).bytes.length ≤
          (writeDeclaredServices services w).bytes.length :=
      (valuesExtend _).length_le
    simp only [maxNdrBytes] at short
    omega
  have headers :
      Reads (fun w => w.each services writeUnicodeStringHeader)
        ((List.range services.length).mapM fun _ => readUnicodeStringHeader)
        (some (services.map headerOf)) :=
    Answers.each_range fun name _ => writeUnicodeStringHeader_reads name
  have values :
      Reads (fun w => w.each services writeUnicodeStringValue)
        ((services.map headerOf).mapM fun header => readUnicodeStringValue header.present)
        (services.mapM optionalAnswer) :=
    Answers.each_map fun name _ => writeUnicodeStringValue_optional_reads name
  have reads :
      Reads (writeDeclaredServices services)
        (readDeclaredServices (services.length % 2 ^ 32))
        ((if maxArrayElements < services.length then
            none
          else
            some services.length).bind fun _ =>
              services.mapM optionalAnswer) := by
    refine
      (arrayCount_reads "transited service(s)" isWord).bind
        (headersExtend.andThen valuesExtend) fun declared isCount => ?_
    split at isCount
    · cases isCount
    cases isCount
    have sameCount : ¬ services.length ≠ services.length % 2 ^ 32 :=
      not_not_intro (Nat.mod_eq_of_lt isWord).symm
    exact
      (headers.andThen (fun w => w.each services writeUnicodeStringValue) values).checked sameCount
  rw [servicesAnswer]
  by_cases limit : maxArrayElements < services.length
  · rw [if_pos limit] at reads ⊢
    exact reads
  · rw [if_neg limit] at reads ⊢
    exact reads

/-- The services are read as their answer. -/
theorem writeServices_reads :
    Reads (writeServices services)
    (readServices (services.length % 2 ^ 32) !services.isEmpty)
    (servicesAnswer services) := by
  cases none_ : services.isEmpty with
  | true =>
    have noServices : services = [] := List.isEmpty_iff.mp none_
    subst noServices
    exact Answers.pure []
  | false =>
    have isWrite : writeServices services = writeDeclaredServices services := by
      funext w
      rw [writeServices, none_, if_neg Bool.false_ne_true, writeDeclaredServices]
    rw [isWrite, Bool.not_false, readServices, if_pos rfl]
    exact writeDeclaredServices_reads services

/-- What reading delegation information comes to. -/
def delegationAnswer (spec : DelegationSpec) : Option (Option Text × List (Option Text)) :=
  (optionalAnswer spec.s4u2proxyTarget).bind fun target =>
    (servicesAnswer spec.transitedServices).bind fun services => some (target, services)

/-- The fields after the top-level pointer. -/
def writeDelegationFields (spec : DelegationSpec) (w : Writer) : Writer :=
  writeServices spec.transitedServices
    (writeUnicodeStringValue spec.s4u2proxyTarget
      (((writeUnicodeStringHeader spec.s4u2proxyTarget w).u32
        spec.transitedServices.length).pointer !spec.transitedServices.isEmpty))

/-- Delegation information is read as its answer. -/
theorem writeDelegation_reads :
    Reads (writeDelegation spec) readDelegation (delegationAnswer spec) := by
  have services := writeServices_reads spec.transitedServices
  have values :
      Reads
        (fun w =>
          writeServices spec.transitedServices (writeUnicodeStringValue spec.s4u2proxyTarget w))
        (readUnicodeStringValue (headerOf spec.s4u2proxyTarget).present >>=
          fun target =>
            readServices (spec.transitedServices.length % 2 ^ 32)
                (!spec.transitedServices.isEmpty) >>= fun services =>
              pure (target, services))
        (delegationAnswer spec) :=
    (writeUnicodeStringValue_optional_reads spec.s4u2proxyTarget).bind
      services.appends fun target _ =>
        services.bind_read fun services _ => Answers.pure (target, services)
  have fields :
      Reads (writeDelegationFields spec) readDelegationFields (delegationAnswer spec) :=
    (writeUnicodeStringHeader_reads spec.s4u2proxyTarget).andThen
      (fun w =>
        writeServices spec.transitedServices
          (writeUnicodeStringValue spec.s4u2proxyTarget
            ((w.u32 spec.transitedServices.length).pointer !spec.transitedServices.isEmpty)))
      ((u32_reads spec.transitedServices.length).andThen
        (fun w =>
          writeServices spec.transitedServices
            (writeUnicodeStringValue spec.s4u2proxyTarget
              (w.pointer !spec.transitedServices.isEmpty)))
        ((pointer_reads !spec.transitedServices.isEmpty).andThen
          (fun w =>
            writeServices spec.transitedServices (writeUnicodeStringValue spec.s4u2proxyTarget w))
          values))
  exact (pointer_reads true).andThen (writeDelegationFields spec) (fields.checked (by decide))

/-! ## Parsing -/

theorem encodeDelegationInfo_eq :
    encodeDelegationInfo spec = object (writeDelegation spec) :=
  rfl

/-- What `parseDelegationInfo` answers of what has been read. -/
def delegationOf (spec : DelegationSpec) (read : Option Text × List (Option Text)) :
    DelegationInfo where
  ndr := headersOf (objectLength (writeDelegation spec))
  s4u2proxyTarget := read.1
  transitedServices := read.2
  bytesUnread := padding 8 (objectEnd (writeDelegation spec))

/-- The reading of `parseDelegationInfo`. -/
def readDelegationInfo : NdrReading DelegationInfo := do
  let headers ← readTypeMarshallingHeaders
  let (s4u2proxyTarget, services) ← readDelegation
  let left ← remaining
  pure {
    ndr := headers
    s4u2proxyTarget := s4u2proxyTarget
    transitedServices := services
    bytesUnread := left
  }

/-- Delegation information that is not too long is read as its answer, with its
padding left. -/
theorem readDelegationInfo_reads {spec : DelegationSpec}
    (fits : (encodeDelegationInfo spec).length ≤ maxNdrBytes) :
    ReadsTo readDelegationInfo (encodeDelegationInfo spec) 0
      (objectEnd (writeDelegation spec))
      ((delegationAnswer spec).map (delegationOf spec)) := by
  rw [encodeDelegationInfo_eq] at fits ⊢
  have reading := writeDelegation_reads spec
  have reads :
      ReadsTo readDelegationInfo (object (writeDelegation spec)) 0
        (objectEnd (writeDelegation spec))
        ((some (headersOf (objectLength (writeDelegation spec)))).bind
          fun headers =>
            (delegationAnswer spec).bind fun read =>
              (some (padding 8 (objectEnd (writeDelegation spec)))).bind
                fun left =>
                  some {
                    ndr := headers
                    s4u2proxyTarget := read.1
                    transitedServices := read.2
                    bytesUnread := left
                  }) :=
    (object_headers reading.appends fits).bind fun _ _ =>
      (object_reads reading fits).bind fun _ _ =>
        (object_remaining reading.appends).bind fun _ _ => rfl
  rw [Option.map_eq_bind]
  exact reads

end IyaSts.Krb5PacClaims
