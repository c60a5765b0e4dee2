import IyaSts.XacmlEquality

namespace IyaSts.XacmlDatatypes

open Binary64 DigitRuns SetOperations TextLines

/-!
# The rows whose equality is an equivalence

Durations are always numbers, two days of March tell a date at no moment from an
equality, and so a value is lawful exactly where its ports and its days are numbers.
-/

/-! ## Durations are numbers -/

theorem isUnsigned_unit (letter : Char) (text : List Char) :
    (orZero (unit letter text).1).isUnsigned = true := by
  unfold unit
  split
  · split
    · exact Number.isUnsigned_round _
    · rfl
  · rfl

theorem isUnsigned_secondsUnit (text : List Char) :
    (orZero (secondsUnit text).1).isUnsigned = true := by
  unfold secondsUnit
  split
  · exact Number.isUnsigned_round _
  · rfl

theorem isNaN_signed {number : Number} (unsigned : number.isUnsigned = true) (negative : Bool) :
    (signed negative number).isNaN = false := by
  cases negative with
  | false => exact Number.isNaN_of_isUnsigned unsigned
  | true => exact (Number.isNaN_neg number).trans (Number.isNaN_of_isUnsigned unsigned)

variable {lexical : List Char}

theorem isNaN_yearMonth {months : Number} (parses : parseYearMonthDuration lexical = some months) :
    months.isNaN = false := by
  unfold parseYearMonthDuration at parses
  generalize minus (trim lexical) = signedText at parses
  simp only at parses
  split at parses
  · rw [Option.ite_none_left_eq_some] at parses
    cases parses.2
    exact isNaN_signed
      (Number.isUnsigned_add
        (Number.isUnsigned_mul_ofInt (isUnsigned_unit 'Y' _) (by norm_num))
        (isUnsigned_unit 'M' _)) _
  · cases parses

/-- The hours, minutes and seconds after a `T`. -/
theorem isUnsigned_inDay {rest : List Char} {hours minutes seconds : Option Number}
    (isInDay :
      (match rest with
      | [] => some (none, none, none)
      | 'T' :: rest =>
        if (secondsUnit (unit 'M' (unit 'H' rest).2).2).2 = [] then
          some ((unit 'H' rest).1, (unit 'M' (unit 'H' rest).2).1,
            (secondsUnit (unit 'M' (unit 'H' rest).2).2).1)
        else
          none
      | _ => none) = some (hours, minutes, seconds)) :
    (orZero hours).isUnsigned = true ∧
      (orZero minutes).isUnsigned = true ∧ (orZero seconds).isUnsigned = true := by
  split at isInDay
  · cases isInDay
    exact ⟨rfl, rfl, rfl⟩
  · rw [Option.ite_none_right_eq_some] at isInDay
    cases isInDay.2
    exact ⟨isUnsigned_unit 'H' _, isUnsigned_unit 'M' _, isUnsigned_secondsUnit _⟩
  · cases isInDay

theorem isNaN_dayTime {seconds : Number} (parses : parseDayTimeDuration lexical = some seconds) :
    seconds.isNaN = false := by
  unfold parseDayTimeDuration at parses
  generalize minus (trim lexical) = signedText at parses
  simp only at parses
  split at parses
  · split at parses
    · rename_i hours minutes seconds isInDay
      rw [Option.ite_none_left_eq_some] at parses
      obtain ⟨isHours, isMinutes, isSeconds⟩ := isUnsigned_inDay isInDay
      cases parses.2
      exact isNaN_signed
        (Number.isUnsigned_add
          (Number.isUnsigned_add
            (Number.isUnsigned_add
              (Number.isUnsigned_mul_ofInt (isUnsigned_unit 'D' _) (by norm_num))
              (Number.isUnsigned_mul_ofInt isHours (by norm_num)))
            (Number.isUnsigned_mul_ofInt isMinutes (by norm_num)))
          isSeconds) _
    · cases parses
  · cases parses

/-! ## Dates as values -/

section Temporal

variable {a b c : DateTimeish}

theorem temporalEqual_symm (a b : DateTimeish) : temporalEqual a b = temporalEqual b a := by
  cases isNumber : (localSeconds a).isNaN with
  | true => rw [temporalEqual_of_isNaN (.inl isNumber), temporalEqual_of_isNaN (.inr isNumber)]
  | false =>
    cases isNumber' : (localSeconds b).isNaN with
    | true => rw [temporalEqual_of_isNaN (.inl isNumber'), temporalEqual_of_isNaN (.inr isNumber')]
    | false =>
      rw [Bool.eq_iff_iff, temporalEqual_iff_key isNumber isNumber',
        temporalEqual_iff_key isNumber' isNumber]
      exact eq_comm

theorem temporalEqual_self (a : DateTimeish) : temporalEqual a a = true := by
  cases isNumber : (localSeconds a).isNaN with
  | true => exact temporalEqual_of_isNaN (.inl isNumber)
  | false => exact (temporalEqual_iff_key isNumber isNumber).mpr rfl

theorem temporalEqual_trans (isNumber : (localSeconds b).isNaN = false)
    (first : temporalEqual a b = true) (second : temporalEqual b c = true) :
    temporalEqual a c = true := by
  cases isFirst : (localSeconds a).isNaN with
  | true => exact temporalEqual_of_isNaN (.inl isFirst)
  | false =>
    cases isThird : (localSeconds c).isNaN with
    | true => exact temporalEqual_of_isNaN (.inr isThird)
    | false =>
      rw [temporalEqual_iff_key isFirst isNumber] at first
      rw [temporalEqual_iff_key isNumber isThird] at second
      exact (temporalEqual_iff_key isFirst isThird).mpr (first.trans second)

end Temporal

/-! ## The two days are parsed -/

theorem ofDigits_two_thousand : ofDigits false "2000".toList = .ofInt 2000 := by
  have isNumber : number "2000".toList = 2000 := by decide
  rw [ofDigits, isNumber]
  exact Number.round_natCast (n := 2000) (by norm_num)

theorem ofDecimal_zero : ofDecimal false "00".toList [] 0 = .ofInt 0 := by
  have isNumber : number ("00".toList ++ []) = 0 := by decide
  rw [ofDecimal, isNumber, Nat.cast_zero, zero_mul]
  exact Number.round_natCast (n := 0) (by norm_num)

/-- A day of March, written. -/
def marchText (shape : Shape) (day : Char) : List Char :=
  "2000-03-0".toList ++ [day] ++
    if shape = .dateTime then "T00:00:00".toList else []

theorem parse_march {shape : Shape} (notTime : shape ≠ .time) {day : Char}
    (isDay : day = '1' ∨ day = '2') :
    parseDateTimeish (marchText shape day) shape = some (marchDay shape (day.toNat - 48)) := by
  have isTrimmed : trim (marchText shape day) = marchText shape day := by
    rcases isDay with rfl | rfl <;> cases shape <;> decide
  have early : (Number.ofInt 0).less (.ofInt 61) = true := by decide +kernel
  have isGroups :
      dateTimeGroups shape (marchText shape day) = some (marchDay shape (day.toNat - 48)) := by
    cases shape with
    | time => exact absurd rfl notTime
    | date =>
      rcases isDay with rfl | rfl
      · exact congrArg (fun year => some (DateTimeish.mk _ year _ _ _ _ _ _)) ofDigits_two_thousand
      · exact congrArg (fun year => some (DateTimeish.mk _ year _ _ _ _ _ _)) ofDigits_two_thousand
    | dateTime =>
      rcases isDay with rfl | rfl
      · exact congrArg₂
          (fun year second => some (DateTimeish.mk _ year _ _ _ _ second _))
          ofDigits_two_thousand ofDecimal_zero
      · exact congrArg₂
          (fun year second => some (DateTimeish.mk _ year _ _ _ _ second _))
          ofDigits_two_thousand ofDecimal_zero
  have isSmall : 1 ≤ day.toNat - 48 ∧ day.toNat - 48 ≤ 31 := by
    rcases isDay with rfl | rfl <;> decide
  rw [parseDateTimeish, isTrimmed, isGroups]
  refine if_neg ?_
  simp only [marchDay, early, Bool.true_eq_false, or_false]
  omega

/-! ## Names and addresses -/

theorem samePort_symm (left right : Option Number) : samePort left right = samePort right left := by
  cases left with
  | none => cases right <;> rfl
  | some left =>
    cases right with
    | none => rfl
    | some right => exact strictEqual_symm left right

theorem samePort_trans {first second third : Option Number} (same : samePort first second = true)
    (same' : samePort second third = true) :
    samePort first third = true := by
  cases first with
  | none =>
    cases second with
    | none => exact same'
    | some second => cases same
  | some first =>
    cases second with
    | none => cases same
    | some second =>
      cases third with
      | none => cases same'
      | some third => exact strictEqual_trans same same'

theorem samePort_self (port : Option Number) :
    samePort port port = true ↔ ∀ bound, port = some bound → bound.isNaN = false := by
  cases port with
  | none => simp [samePort]
  | some bound => simp [samePort, strictEqual_self]

variable (left right : Ports)

theorem portsEqual_iff :
    portsEqual left right = true ↔
      samePort left.low right.low = true ∧ samePort left.high right.high = true := by
  rw [portsEqual, Bool.and_eq_true]

theorem portsEqual_symm : portsEqual left right = portsEqual right left := by
  rw [portsEqual, portsEqual, samePort_symm left.low, samePort_symm left.high]

theorem portsEqual_trans {first second third : Ports} (same : portsEqual first second = true)
    (same' : portsEqual second third = true) :
    portsEqual first third = true := by
  rw [portsEqual_iff] at same same' ⊢
  exact ⟨samePort_trans same.1 same'.1, samePort_trans same.2 same'.2⟩

theorem portsEqual_self (ports : Ports) : portsEqual ports ports = true ↔ SoundPorts ports := by
  rw [portsEqual_iff, samePort_self, samePort_self, SoundPorts]

theorem dnsNameEqual_iff (a b : DnsName) :
    dnsNameEqual a b = true ↔ a.host = b.host ∧ portsEqual a.ports b.ports = true := by
  rw [dnsNameEqual, Bool.and_eq_true, beq_iff_eq]

theorem ipAddressEqual_iff (a b : IpAddress) :
    ipAddressEqual a b = true ↔
      a.address = b.address ∧ a.mask = b.mask ∧ portsEqual a.ports b.ports = true := by
  rw [ipAddressEqual, Bool.and_eq_true, Bool.and_eq_true, beq_iff_eq, beq_iff_eq, and_assoc]

/-! ## The rows -/

section Rows

variable {toLowerCase : List Char → List Char}

variable {type : Datatype} {shape : Shape}

variable (one : Parsed toLowerCase type)

/-- An equality of what some function makes of the values is an equivalence. -/
theorem lawfulAt_of_image {Image : Type} (image : type.Value → Image)
    (isImage : ∀ a b : type.Value, type.equal toLowerCase a b = true ↔ image a = image b) :
    LawfulAt one where
  refl := (isImage _ _).mpr rfl
  symm other := by
    rw [Bool.eq_iff_iff, isImage, isImage]
    exact eq_comm
  trans first third same same' := by
    rw [isImage] at same same' ⊢
    exact same.trans same'

/-- The rows that compare values by their parts. -/
theorem lawfulAt_of_sameValue (Part : Type) [DecidableEq Part] (parts : type.Value → Part)
    (isSame : ∀ a b : type.Value, type.equal toLowerCase a b = sameValue (parts a) (parts b)) :
    LawfulAt one :=
  lawfulAt_of_image one parts fun a b => by rw [isSame, sameValue_iff]

/-- The rows of durations, which are numbers. -/
theorem lawfulAt_of_strictEqual (length : type.Value → Number)
    (isSame : ∀ a b : type.Value, type.equal toLowerCase a b = (length a).strictEqual (length b))
    (isNumber : (length one.value).isNaN = false) :
    LawfulAt one where
  refl := by rw [isSame, strictEqual_self, isNumber]
  symm other := by rw [isSame, isSame, strictEqual_symm]
  trans first third same same' := by
    rw [isSame] at same same' ⊢
    exact strictEqual_trans same same'

/-- The rows of dates and times, where a moment is a number. -/
theorem lawfulAt_of_temporalEqual (time : type.Value → DateTimeish)
    (isSame : ∀ a b : type.Value, type.equal toLowerCase a b = temporalEqual (time a) (time b))
    (isNumber : (localSeconds (time one.value)).isNaN = false) :
    LawfulAt one where
  refl := by rw [isSame, temporalEqual_self]
  symm other := by rw [isSame, isSame, temporalEqual_symm]
  trans first third same same' := by
    rw [isSame] at same same' ⊢
    exact temporalEqual_trans isNumber same same'

/-- A date without a moment is both days of March. -/
theorem isNumber_of_lawfulAt (time : type.Value → DateTimeish)
    (isSame : ∀ a b : type.Value, type.equal toLowerCase a b = temporalEqual (time a) (time b))
    {one : Parsed toLowerCase type} (lawful : LawfulAt one) (first second : Parsed toLowerCase type)
    (differ : temporalEqual (time first.value) (time second.value) = false) :
    (localSeconds (time one.value)).isNaN = false := by
  rw [← Bool.not_eq_true]
  intro isNaN
  have same :=
    lawful.trans first second
      (by rw [isSame]; exact temporalEqual_of_isNaN (.inr isNaN))
      (by rw [isSame]; exact temporalEqual_of_isNaN (.inl isNaN))
  rw [isSame, differ] at same
  cases same

/-- A date is at a moment where its days can be counted. -/
theorem isNaN_moment (notTime : shape ≠ .time) {lexical : List Char} {value : DateTimeish}
    (parses : parseDateTimeish lexical shape = some value) :
    (localSeconds value).isNaN = false ↔ SoundDate value := by
  rw [isNaN_localSeconds (checked_of_parse parses), if_neg notTime, SoundDate]

theorem parsed_march (notTime : shape ≠ .time) (day : Bool) :
    ∃ lexical, parseDateTimeish lexical shape = some (marchDay shape (if day then 2 else 1)) := by
  cases day with
  | false => exact ⟨_, parse_march notTime (.inl rfl)⟩
  | true => exact ⟨_, parse_march notTime (.inr rfl)⟩

/-- What makes a parsed value of a row lawful. -/
theorem lawfulAt_iff_sound :
    LawfulAt one ↔ type.Sound one.value := by
  cases type with
  | string => exact iff_of_true (lawfulAt_of_sameValue one (List Char) id fun _ _ => rfl) trivial
  | boolean => exact iff_of_true (lawfulAt_of_sameValue one Bool id fun _ _ => rfl) trivial
  | integer => exact iff_of_true (lawfulAt_of_sameValue one Int id fun _ _ => rfl) trivial
  | anyURI => exact iff_of_true (lawfulAt_of_sameValue one (List Char) id fun _ _ => rfl) trivial
  | hexBinary => exact iff_of_true (lawfulAt_of_sameValue one (List Char) id fun _ _ => rfl) trivial
  | base64Binary =>
    exact iff_of_true (lawfulAt_of_sameValue one (List Char) id fun _ _ => rfl) trivial
  | rfc822Name => exact iff_of_true (lawfulAt_of_sameValue one Rfc822Name id fun _ _ => rfl) trivial
  | double =>
    exact iff_of_true
      (lawfulAt_of_image one (fun value => (value.isNaN, value.place))
        fun a b => (doubleEqual_iff a b).trans Prod.mk_inj.symm)
      trivial
  | x500Name =>
    exact iff_of_true (lawfulAt_of_image one _ fun a b => x500Equal_iff toLowerCase a b) trivial
  | yearMonthDuration =>
    exact iff_of_true
      (lawfulAt_of_strictEqual one id (fun _ _ => rfl) (isNaN_yearMonth one.accepted))
      trivial
  | dayTimeDuration =>
    exact iff_of_true
      (lawfulAt_of_strictEqual one id (fun _ _ => rfl) (isNaN_dayTime one.accepted))
      trivial
  | time =>
    have isNumber := isNaN_localSeconds (checked_of_parse one.accepted)
    rw [if_pos rfl] at isNumber
    exact iff_of_true (lawfulAt_of_temporalEqual one id (fun _ _ => rfl) isNumber) trivial
  | date =>
    have isMoment := isNaN_moment (by decide) one.accepted
    obtain ⟨first, isFirst⟩ := parsed_march (by decide : Shape.date ≠ .time) false
    obtain ⟨second, isSecond⟩ := parsed_march (by decide : Shape.date ≠ .time) true
    constructor
    · intro lawful
      exact isMoment.mp
        (isNumber_of_lawfulAt id (fun _ _ => rfl) lawful
          ⟨_, first, isFirst⟩ ⟨_, second, isSecond⟩
          (march_differs (by decide)))
    · intro sound
      exact lawfulAt_of_temporalEqual one id (fun _ _ => rfl) (isMoment.mpr sound)
  | dateTime =>
    have isMoment := isNaN_moment (by decide) one.accepted
    obtain ⟨first, isFirst⟩ := parsed_march (by decide : Shape.dateTime ≠ .time) false
    obtain ⟨second, isSecond⟩ := parsed_march (by decide : Shape.dateTime ≠ .time) true
    constructor
    · intro lawful
      exact isMoment.mp
        (isNumber_of_lawfulAt id (fun _ _ => rfl) lawful
          ⟨_, first, isFirst⟩ ⟨_, second, isSecond⟩
          (march_differs (by decide)))
    · intro sound
      exact lawfulAt_of_temporalEqual one id (fun _ _ => rfl) (isMoment.mpr sound)
  | dnsName =>
    constructor
    · intro lawful
      exact (portsEqual_self _).mp ((dnsNameEqual_iff _ _).mp lawful.refl).2
    · intro sound
      refine ⟨(dnsNameEqual_iff _ _).mpr ⟨rfl, (portsEqual_self _).mpr sound⟩,
        fun other => ?_, fun first third same same' => ?_⟩
      · refine Bool.eq_iff_iff.mpr
          ((dnsNameEqual_iff _ _).trans (Iff.trans ?_ (dnsNameEqual_iff _ _).symm))
        rw [portsEqual_symm, eq_comm]
      · obtain ⟨isHost, isPorts⟩ := (dnsNameEqual_iff _ _).mp same
        obtain ⟨isHost', isPorts'⟩ := (dnsNameEqual_iff _ _).mp same'
        exact (dnsNameEqual_iff _ _).mpr ⟨isHost.trans isHost', portsEqual_trans isPorts isPorts'⟩
  | ipAddress =>
    constructor
    · intro lawful
      exact (portsEqual_self _).mp ((ipAddressEqual_iff _ _).mp lawful.refl).2.2
    · intro sound
      refine ⟨(ipAddressEqual_iff _ _).mpr
          ⟨rfl, rfl, (portsEqual_self _).mpr sound⟩,
        fun other => ?_, fun first third same same' => ?_⟩
      · refine Bool.eq_iff_iff.mpr
          ((ipAddressEqual_iff _ _).trans (Iff.trans ?_ (ipAddressEqual_iff _ _).symm))
        rw [portsEqual_symm, eq_comm]
        exact and_congr_right fun _ => and_congr_left fun _ => eq_comm
      · obtain ⟨isAddress, isMask, isPorts⟩ := (ipAddressEqual_iff _ _).mp same
        obtain ⟨isAddress', isMask', isPorts'⟩ := (ipAddressEqual_iff _ _).mp same'
        exact (ipAddressEqual_iff _ _).mpr
          ⟨isAddress.trans isAddress', isMask.trans isMask', portsEqual_trans isPorts isPorts'⟩

/-- On lawful values the equality is an equivalence. -/
theorem equivalenceOn_lawful (type : Datatype) :
    EquivalenceOn (type.equal toLowerCase) fun value =>
      ∃ one : Parsed toLowerCase type, LawfulAt one ∧ one.value = value where
  refl := by
    rintro _ ⟨one, lawful, rfl⟩
    exact lawful.refl
  symm := by
    rintro _ _ ⟨first, lawful, rfl⟩ ⟨second, -, rfl⟩ same
    rw [← lawful.symm second]
    exact same
  trans := by
    rintro _ _ _ ⟨first, -, rfl⟩ ⟨second, lawful, rfl⟩ ⟨third, -, rfl⟩
    exact lawful.trans first third

end Rows

/-- A row's equality is an equivalence on the values of two bags, which are then sets,
exactly where their ports and their days are numbers. -/
theorem equality_and_sets_iff (toLowerCase : List Char → List Char)
    (type : Datatype) (left right : List (Parsed toLowerCase type)) :
    ((∀ one ∈ left ++ right, LawfulAt one) ∧
        SetLaws (type.equal toLowerCase) (left.map Parsed.value) (right.map Parsed.value)) ↔
      ∀ one ∈ left ++ right, type.Sound one.value := by
  constructor
  · rintro ⟨lawful, -⟩ one isMember
    exact (lawfulAt_iff_sound one).mp (lawful one isMember)
  · intro sound
    have lawful (one) (isMember : one ∈ left ++ right) : LawfulAt one :=
      (lawfulAt_iff_sound one).mpr (sound one isMember)
    refine ⟨lawful, setLaws (equivalenceOn_lawful type) ?_ ?_⟩
    · intro value isValue
      obtain ⟨one, isLeft, rfl⟩ := List.mem_map.mp isValue
      exact ⟨one, lawful one (List.mem_append_left _ isLeft), rfl⟩
    · intro value isValue
      obtain ⟨one, isRight, rfl⟩ := List.mem_map.mp isValue
      exact ⟨one, lawful one (List.mem_append_right _ isRight), rfl⟩

/-- A range that ends in no number is not itself. -/
theorem equality_not_reflexive :
    ∃ value,
      Datatype.dnsName.parse id "a:1-x".toList = some value ∧
        Datatype.dnsName.equal id value value = false := by
  refine ⟨_, rfl, ?_⟩
  decide +kernel

end IyaSts.XacmlDatatypes
