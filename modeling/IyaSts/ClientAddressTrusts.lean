import IyaSts.ClientAddress

namespace IyaSts.ClientAddress

/-!
# Which addresses the configured ranges trust

An entry denotes the addresses that share the leading bits it names.  What the
service adds for an entry is what it denotes exactly where the bits are spelled
as a decimal, and the address is not an IPv4-mapped one with bits of its own.
Of a trusted peer's header, only what stands from the last untrusted entry on
is read.
-/

open List

open TextLines (trim)

/-! ## What a platform promises -/

/-- The digits of a prefix length, apart from white space around them. -/
def prefixDigits (text : List Char) : Option Nat :=
  let digits := trim text
  if digits ≠ [] ∧ digits.all isDigit then
    some (digits.foldl (fun read digit => read * 10 + (digit.toNat - 0x30)) 0)
  else
    none

/-- The documented behaviour of the platform's readers. -/
structure Net.Lawful (net : Net) : Prop where
  /-- An address that has a number is of a family. -/
  known : ∀ {text number}, net.numberOf text = some number → net.isIP text = 4 ∨ net.isIP text = 6
  fits : ∀ {text number}, net.numberOf text = some number → number < 2 ^ 128
  /-- An IPv4 address has the number of its mapped form. -/
  four :
    ∀ {text}, net.isIP text = 4 →
      ∃ number, net.numberOf text = some number ∧ number / 2 ^ 32 = 0xffff
  /-- The dotted form of a mapped address. -/
  mapped :
    ∀ {text}, isMapped text = true →
      net.isIP text ≠ 4 ∧ net.isIP (text.drop 7) ≠ 6 ∧
        (net.isIP text = 6 ↔ net.isIP (text.drop 7) = 4) ∧
        net.numberOf text = net.numberOf (text.drop 7)
  loopback : net.numberOf "::1".toList = some 1
  /-- A decimal is read as its number, and a great one as a great number. -/
  decimal :
    ∀ {text number}, prefixDigits text = some number → number ≤ 128 →
      net.wholeNumber text = some number
  great :
    ∀ {text number read}, prefixDigits text = some number → 128 < number →
      net.wholeNumber text = some read → 128 < read

section Trust

variable (net : Net)

/-- The addresses an entry denotes, of the family its address is written in. -/
def denoted (entry : List Char) : Option Subnet :=
  let address := trim (parts entry).1
  match familyOf net address with
  | none => none
  | some family =>
    let bits :=
      match (parts entry).2 with
      | some text => prefixDigits text
      | none => some family.max
    match bits with
    | none => none
    | some bits => if family.max < bits then none else addSubnet net address family bits

/-- An address that some entry denotes. -/
def Trusted (entries : List (List Char)) (number : Nat) : Prop :=
  ∃ entry ∈ entries, ∃ subnet, denoted net entry = some subnet ∧ subnet.contains number = true

/-- The addresses in the ranges are, in every spelling, those denoted. -/
def Recognises (entries : List (List Char)) : Prop :=
  ∀ text,
    inRanges net text (ranges net entries) = true ↔
      ∃ number, net.numberOf (trim text) = some number ∧ Trusted net entries number

/--
An entry that is taken at its word: its bits are a decimal where they are read
as a number of bits, and none where its address is in the mapped form.
-/
structure Plain (entry : List Char) : Prop where
  decimal :
    ∀ bits number family read,
      (parts entry).2 = some bits →
      net.numberOf (trim (parts entry).1) = some number →
      isMapped (trim (parts entry).1) = false →
      familyOf net (trim (parts entry).1) = some family →
      net.wholeNumber bits = some read → read ≤ family.max →
      ∃ length, prefixDigits bits = some length
  noMappedBits :
    ∀ bits number,
      (parts entry).2 = some bits →
      net.numberOf (trim (parts entry).1) = some number →
      isMapped (trim (parts entry).1) = true →
      (∀ length, prefixDigits bits = some length → 128 < length) ∧
        ∀ read, net.wholeNumber bits = some read → 32 < read

variable {net}

/-! ## Spellings of an address -/

theorem familyOf_isSome_iff {text : List Char} :
    (∃ family, familyOf net text = some family) ↔ net.isIP text = 4 ∨ net.isIP text = 6 := by
  unfold familyOf
  by_cases isFour : net.isIP text = 4
  · simp [isFour]
  · by_cases isSix : net.isIP text = 6 <;> simp [isFour, isSix]

variable {text : List Char} {inside : List Char → Bool}

theorem familyOf_eq_four (isFour : net.isIP text = 4) : familyOf net text = some .ipv4 :=
  if_pos isFour

theorem familyOf_eq_six (isSix : net.isIP text = 6) : familyOf net text = some .ipv6 := by
  rw [familyOf, if_neg (by omega), if_pos isSix]

/-- An address has one number in the form the service reads it in. -/
theorem numberOf_normalise (lawful : net.Lawful) (text : List Char) :
    net.numberOf (normalise text) = net.numberOf (trim text) := by
  unfold normalise
  simp only
  split
  · rename_i isMappedForm
    exact (lawful.mapped isMappedForm).2.2.2.symm
  · rfl

/-- A text is in the ranges where its number is in one that was added. -/
theorem inRanges_iff (lawful : net.Lawful) (entries : List (List Char)) (text : List Char) :
    inRanges net text (ranges net entries) = true ↔
      ∃ number,
        net.numberOf (trim text) = some number ∧
          ∃ entry ∈ entries, ∃ subnet,
            subnetOf net entry = some subnet ∧ subnet.contains number = true := by
  rw [← numberOf_normalise lawful]
  unfold inRanges ranges
  simp only
  cases isNumber : net.numberOf (normalise text) with
  | none => cases familyOf net (normalise text) <;> simp
  | some number =>
    obtain ⟨family, isFamily⟩ := familyOf_isSome_iff.mpr (lawful.known isNumber)
    rw [isFamily]
    simp only [any_eq_true, mem_filterMap, Option.some.injEq, exists_eq_left']
    constructor
    · rintro ⟨subnet, ⟨entry, isEntry, isSubnet⟩, isInside⟩
      exact ⟨entry, isEntry, subnet, isSubnet, isInside⟩
    · rintro ⟨entry, isEntry, subnet, isSubnet, isInside⟩
      exact ⟨subnet, ⟨entry, isEntry, isSubnet⟩, isInside⟩

/-- Where every entry adds what it denotes, addresses are recognised. -/
theorem recognises_of_eq (lawful : net.Lawful) {entries : List (List Char)}
    (same : ∀ entry ∈ entries, subnetOf net entry = denoted net entry) :
    Recognises net entries := by
  intro text
  rw [inRanges_iff lawful]
  constructor
  · rintro ⟨number, isNumber, entry, isEntry, subnet, isSubnet, isInside⟩
    rw [same entry isEntry] at isSubnet
    exact ⟨number, isNumber, entry, isEntry, subnet, isSubnet, isInside⟩
  · rintro ⟨number, isNumber, entry, isEntry, subnet, isSubnet, isInside⟩
    rw [← same entry isEntry] at isSubnet
    exact ⟨number, isNumber, entry, isEntry, subnet, isSubnet, isInside⟩

/-! ## What an entry adds -/

theorem contains_self (number bits : Nat) : Subnet.contains { number, bits } number = true := by
  simp [Subnet.contains]

/-- A mapped address shares short prefixes with the loopback address. -/
theorem loopback_denoted {number length : Nat} (isLead : number / 2 ^ 32 = 0xffff)
    (isShort : length ≤ 32) :
    Subnet.contains { number, bits := 0 + length } 1 = true := by
  have wide : 2 ^ 48 ≤ 2 ^ (128 - (0 + length)) := Nat.pow_le_pow_right (by decide) (by omega)
  have isLess : number < 2 ^ 48 := by omega
  have noneOfOne : 1 / 2 ^ (128 - (0 + length)) = 0 := Nat.div_eq_of_lt (by omega)
  have noneOfNumber : number / 2 ^ (128 - (0 + length)) = 0 := Nat.div_eq_of_lt (by omega)
  simp only [Subnet.contains, noneOfOne, noneOfNumber, decide_true]

/-- It shares none with it that reaches into the IPv4 address. -/
theorem loopback_not_added {number length : Nat} (isLead : number / 2 ^ 32 = 0xffff) :
    Subnet.contains { number, bits := 96 + length } 1 = false := by
  have small : 1 / 2 ^ (128 - (96 + length)) ≤ 1 := Nat.div_le_self _ _
  have large : number / 2 ^ 32 ≤ number / 2 ^ (128 - (96 + length)) :=
    Nat.div_le_div_left (Nat.pow_le_pow_right (by decide) (by omega)) (Nat.two_pow_pos _)
  simp only [Subnet.contains, decide_eq_false_iff_not]
  omega

section Entries

variable
    {entry address bits : List Char}
    {number : Nat}

/-- Of an address without a number nothing is added or denoted. -/
theorem nothing_of_unread (lawful : net.Lawful)
    (isUnread : net.numberOf (trim (parts entry).1) = none) :
    subnetOf net entry = none ∧ denoted net entry = none := by
  have addedUnread : net.numberOf (normalise (parts entry).1) = none := by
    rw [numberOf_normalise lawful]
    exact isUnread
  constructor
  · unfold subnetOf addSubnet
    simp only [addedUnread, Option.map_none, ite_self]
    split
    · rfl
    · split <;> rfl
  · unfold denoted addSubnet
    simp only [isUnread, Option.map_none, ite_self]
    split
    · rfl
    · split <;> rfl

variable {family : Family}

/-- What is added for an address that is not in the mapped form. -/
theorem subnetOf_unmapped (notMapped : isMapped (trim (parts entry).1) = false)
    (isNumber : net.numberOf (trim (parts entry).1) = some number)
    (isFamily : familyOf net (trim (parts entry).1) = some family)
    (hasBits : (parts entry).2 = some bits) :
    subnetOf net entry =
      (net.wholeNumber bits).bind fun read =>
        if family.max < read then none
        else some { number, bits := family.lead + read } := by
  have sameText : normalise (parts entry).1 = trim (parts entry).1 := by simp [normalise, notMapped]
  unfold subnetOf addSubnet
  simp only [sameText, isFamily, hasBits, isNumber, Option.map_some]
  cases net.wholeNumber bits <;> rfl

/-- What is added for an address in the mapped form: an IPv4 subnet. -/
theorem subnetOf_mapped (lawful : net.Lawful)
    (isMappedForm : isMapped (trim (parts entry).1) = true)
    (isNumber : net.numberOf (trim (parts entry).1) = some number)
    (hasBits : (parts entry).2 = some bits) :
    subnetOf net entry =
      (net.wholeNumber bits).bind fun read =>
        if 32 < read then none
        else some { number, bits := 96 + read } := by
  obtain ⟨notFour, _, sixIff, sameNumber⟩ := lawful.mapped isMappedForm
  have innerFour : net.isIP ((trim (parts entry).1).drop 7) = 4 :=
    sixIff.mp ((lawful.known isNumber).resolve_left notFour)
  have innerText : normalise (parts entry).1 = (trim (parts entry).1).drop 7 := by
    simp [normalise, isMappedForm]
  unfold subnetOf addSubnet
  rw [sameNumber] at isNumber
  simp only [innerText, familyOf_eq_four innerFour, hasBits, isNumber, Option.map_some]
  cases net.wholeNumber bits <;> rfl

/-- What an entry with bits denotes. -/
theorem denoted_bits (isNumber : net.numberOf (trim (parts entry).1) = some number)
    (isFamily : familyOf net (trim (parts entry).1) = some family)
    (hasBits : (parts entry).2 = some bits) :
    denoted net entry =
      (prefixDigits bits).bind fun length =>
        if family.max < length then none
        else some { number, bits := family.lead + length } := by
  unfold denoted addSubnet
  simp only [isFamily, hasBits, isNumber, Option.map_some]
  cases prefixDigits bits <;> rfl

/-- An entry without bits adds the one address it denotes. -/
theorem subnetOf_eq_of_noBits (lawful : net.Lawful)
    (isNumber : net.numberOf (trim (parts entry).1) = some number)
    (noBits : (parts entry).2 = none) :
    subnetOf net entry = denoted net entry := by
  by_cases isMappedForm : isMapped (trim (parts entry).1) = true
  · obtain ⟨notFour, _, sixIff, sameNumber⟩ := lawful.mapped isMappedForm
    have isSix := (lawful.known isNumber).resolve_left notFour
    have innerText : normalise (parts entry).1 = (trim (parts entry).1).drop 7 := by
      simp [normalise, isMappedForm]
    unfold subnetOf denoted addSubnet
    simp only [innerText, familyOf_eq_four (sixIff.mp isSix), familyOf_eq_six isSix, noBits,
      ← sameNumber, Family.max, Family.lead, Nat.lt_irrefl, if_false]
  · have sameText : normalise (parts entry).1 = trim (parts entry).1 := by
      simp [normalise, isMappedForm]
    unfold subnetOf denoted
    simp only [sameText, noBits] <;> cases familyOf net (trim (parts entry).1) <;> rfl

/-- A plain entry adds what it denotes. -/
theorem subnetOf_eq_denoted (lawful : net.Lawful) (isPlain : Plain net entry) :
    subnetOf net entry = denoted net entry := by
  cases isRead : net.numberOf (trim (parts entry).1) with
  | none =>
    obtain ⟨noSubnet, nothing⟩ := nothing_of_unread lawful isRead
    rw [noSubnet, nothing]
  | some number =>
    cases hasBits : (parts entry).2 with
    | none => exact subnetOf_eq_of_noBits lawful isRead hasBits
    | some bits =>
      obtain ⟨family, isFamily⟩ := familyOf_isSome_iff.mpr (lawful.known isRead)
      have maxFits : family.max ≤ 128 := by cases family <;> decide
      rw [denoted_bits isRead isFamily hasBits]
      by_cases isMappedForm : isMapped (trim (parts entry).1) = true
      · obtain ⟨isGreat, notBits⟩ := isPlain.noMappedBits bits number hasBits isRead isMappedForm
        have nothingAdded : subnetOf net entry = none := by
          rw [subnetOf_mapped lawful isMappedForm isRead hasBits]
          cases isWhole : net.wholeNumber bits with
          | none => rfl
          | some read => exact if_pos (notBits read isWhole)
        rw [nothingAdded]
        cases isLength : prefixDigits bits with
        | none => rfl
        | some length =>
          have := isGreat length isLength
          exact (if_pos (by omega)).symm
      · have notMapped : isMapped (trim (parts entry).1) = false := by
          simpa using isMappedForm
        rw [subnetOf_unmapped notMapped isRead isFamily hasBits]
        have decimal := isPlain.decimal bits number family
        cases isWhole : net.wholeNumber bits with
        | none =>
          cases isLength : prefixDigits bits with
          | none => rfl
          | some length =>
            by_cases isGreat : family.max < length
            · exact (if_pos isGreat).symm
            · have isDecimal := lawful.decimal isLength (by omega)
              rw [isWhole] at isDecimal
              exact absurd isDecimal (by simp)
        | some read =>
          by_cases tooGreat : family.max < read
          · cases isLength : prefixDigits bits with
            | none => exact if_pos tooGreat
            | some length =>
              by_cases isGreat : 128 < length
              · simp only [Option.bind_some, if_pos tooGreat]
                exact (if_pos (by omega)).symm
              · have isDecimal := lawful.decimal isLength (by omega)
                rw [isWhole, Option.some.injEq] at isDecimal
                rw [isDecimal]
          · obtain ⟨length, isLength⟩ :=
              decimal read hasBits isRead notMapped isFamily isWhole (by omega)
            have notGreat : ¬128 < length := fun isGreat => by
              have := lawful.great isLength isGreat isWhole
              omega
            have isDecimal := lawful.decimal isLength (by omega)
            rw [isWhole, Option.some.injEq] at isDecimal
            rw [isLength, isDecimal]

/-- An entry alone is recognised only where it is plain. -/
theorem plain_of_recognises (lawful : net.Lawful) (recognises : Recognises net [entry]) :
    Plain net entry := by
  have added_iff (text : List Char) (number : Nat)
      (isNumber : net.numberOf (trim text) = some number) :
      (∃ subnet, subnetOf net entry = some subnet ∧
          subnet.contains number = true) ↔
        ∃ subnet, denoted net entry = some subnet ∧ subnet.contains number = true := by
    have same := (inRanges_iff lawful [entry] text).symm.trans (recognises text)
    simpa [isNumber, Trusted] using same
  constructor
  · intro bits number family read hasBits isNumber notMapped isFamily isWhole inFamily
    have added := subnetOf_unmapped notMapped isNumber isFamily hasBits
    rw [isWhole, Option.bind_some, if_neg (by omega)] at added
    obtain ⟨subnet, isDenoted, _⟩ := (added_iff _ _ isNumber).mp ⟨_, added, contains_self _ _⟩
    rw [denoted_bits isNumber isFamily hasBits] at isDenoted
    obtain ⟨length, isLength, _⟩ := Option.bind_eq_some_iff.mp isDenoted
    exact ⟨length, isLength⟩
  · intro bits number hasBits isNumber isMappedForm
    obtain ⟨notFour, _, sixIff, sameNumber⟩ := lawful.mapped isMappedForm
    have isSix := (lawful.known isNumber).resolve_left notFour
    have isDenoted := denoted_bits isNumber (familyOf_eq_six isSix) hasBits
    have added := subnetOf_mapped lawful isMappedForm isNumber hasBits
    have isGreat : ∀ length, prefixDigits bits = some length → 128 < length := by
      intro length isLength
      by_contra notGreat
      have isWhole := lawful.decimal isLength (by omega)
      rw [isLength, Option.bind_some, if_neg (by simp only [Family.max]; omega)] at isDenoted
      rw [isWhole, Option.bind_some] at added
      by_cases isLong : 32 < length
      · rw [if_pos isLong] at added
        obtain ⟨subnet, isAdded, _⟩ :=
          (added_iff _ _ isNumber).mpr ⟨_, isDenoted, contains_self _ _⟩
        rw [added] at isAdded
        exact absurd isAdded (by simp)
      · -- The loopback address is denoted, and not added.
        obtain ⟨other, isOther, isLead⟩ := lawful.four (sixIff.mp isSix)
        rw [← sameNumber, isNumber, Option.some.injEq] at isOther
        subst isOther
        rw [if_neg isLong] at added
        obtain ⟨subnet, isAdded, isInside⟩ :=
          (added_iff "::1".toList 1 lawful.loopback).mpr
            ⟨_, isDenoted, loopback_denoted isLead (by omega)⟩
        rw [added, Option.some.injEq] at isAdded
        rw [← isAdded, loopback_not_added isLead] at isInside
        exact absurd isInside (by decide)
    refine ⟨isGreat, ?_⟩
    intro read isWhole
    by_contra notGreat
    rw [isWhole, Option.bind_some, if_neg (by omega)] at added
    obtain ⟨subnet, isSubnet, _⟩ := (added_iff _ _ isNumber).mp ⟨_, added, contains_self _ _⟩
    rw [isDenoted] at isSubnet
    obtain ⟨length, isLength, isBits⟩ := Option.bind_eq_some_iff.mp isSubnet
    have := isGreat length isLength
    rw [if_pos (by simp only [Family.max]; omega)] at isBits
    exact absurd isBits (by simp)

/-- An entry alone is recognised exactly where it is plain. -/
theorem recognises_iff_plain (lawful : net.Lawful) : Recognises net [entry] ↔ Plain net entry := by
  constructor
  · exact plain_of_recognises lawful
  · intro isPlain
    apply recognises_of_eq lawful
    intro other isOther
    rw [mem_singleton.mp isOther]
    exact subnetOf_eq_denoted lawful isPlain

end Entries

/-! ## What a header may say -/

theorem splitCommas_ne_nil (text : List Char) : splitCommas text ≠ [] := by
  induction text with
  | nil => exact cons_ne_nil _ _
  | cons char rest ih =>
    rw [splitCommas]
    split
    · exact cons_ne_nil _ _
    · obtain ⟨first, others, isSplit⟩ := exists_cons_of_ne_nil ih
      rw [isSplit]
      exact cons_ne_nil _ _

/-- A comma ends an entry, whatever stands on its left. -/
theorem splitCommas_append_comma (left right : List Char) :
    splitCommas (left ++ ',' :: right) = splitCommas left ++ splitCommas right := by
  induction left with
  | nil => simp [splitCommas]
  | cons char left ih =>
    rw [cons_append, splitCommas, splitCommas]
    by_cases isComma : char = ','
    · simp only [if_pos isComma, ih, cons_append]
    · simp only [if_neg isComma, ih]
      obtain ⟨first, others, isSplit⟩ := exists_cons_of_ne_nil (splitCommas_ne_nil left)
      rw [isSplit]
      rfl

/-- What a proxy adds after a comma stands behind the entries so far. -/
theorem forwardedFor_append_comma (request : Request) (left right : List Char) :
    forwardedFor { request with forwarded := left ++ ',' :: right } =
      forwardedFor { request with forwarded := left } ++
        forwardedFor { request with forwarded := right } := by
  simp only [forwardedFor, splitCommas_append_comma, map_append, filter_append]

/-- The search from the right stops at the last entry that is outside. -/
theorem find_reverse {before after : List (List Char)} {hop : List Char}
    (outside : inside hop = false) (others : ∀ later ∈ after, inside later = true) :
    ((before ++ hop :: after).reverse.find? fun hop => !inside hop) = some hop := by
  have noneAfter : (after.reverse.find? fun hop => !inside hop) = none := by
    rw [List.find?_eq_none]
    intro later isLater
    simp [others later (mem_reverse.mp isLater)]
  rw [reverse_append, reverse_cons, append_assoc, List.find?_append, noneAfter,
    Option.none_or, List.find?_append, List.find?_singleton, outside]
  rfl

/-- Entries of which one is outside end in one that is, and insiders. -/
theorem lastOutside {chain : List (List Char)} (anyOutside : ∃ hop ∈ chain, inside hop = false) :
    ∃ before hop after,
      chain = before ++ hop :: after ∧ inside hop = false ∧
        ∀ later ∈ after, inside later = true := by
  induction chain with
  | nil =>
    obtain ⟨_, isIn, _⟩ := anyOutside
    exact absurd isIn not_mem_nil
  | cons first rest ih =>
    by_cases restOutside : ∃ hop ∈ rest, inside hop = false
    · obtain ⟨before, hop, after, isRest, outside, others⟩ := ih restOutside
      exact ⟨first :: before, hop, after, by rw [isRest]; rfl, outside, others⟩
    · obtain ⟨hop, isHop, outside⟩ := anyOutside
      have isFirst : hop = first :=
        (mem_cons.mp isHop).resolve_right fun inRest => restOutside ⟨hop, inRest, outside⟩
      refine ⟨[], first, rest, rfl, isFirst ▸ outside, ?_⟩
      intro later isLater
      by_contra notInside
      exact restOutside ⟨later, isLater, by simpa using notInside⟩

end Trust

section Answers

variable
    {net : Net}
    {service : Service}
    {request : Request}

/-- A service of its own that believes the proxies it names. -/
structure Service.Proxied (net : Net) (service : Service)
    (request : Request) : Prop where
  believes : service.trustProxy = true
  notWorker : service.isRequestWorker = false
  notRelayed : request.cellClient = []
  configured : (ranges net (rangesText service.trustedProxies)).configured ≠ 0

theorem notFromFrontProcess (proxied : service.Proxied net request) :
    fromFrontProcess service request = false := by
  simp [fromFrontProcess, proxied.notWorker]

/-- A peer outside the ranges is answered as itself. -/
theorem answers_peer (proxied : service.Proxied net request)
    (outside :
      inRanges net (peerOf request)
        (ranges net (rangesText service.trustedProxies)) = false) :
    clientAddressOf net service request = orText (peerOf request) unknown := by
  unfold clientAddressOf
  simp [proxied.notRelayed, notFromFrontProcess proxied, proxied.believes,
    proxied.configured, outside]

variable {hop text : List Char}

/-- Of a trusted peer's entries the walk's first find is the answer. -/
theorem answers_found (proxied : service.Proxied net request)
    (trusted :
      inRanges net (peerOf request)
        (ranges net (rangesText service.trustedProxies)) = true)
    (isFound :
      ((forwardedFor request).reverse.find? fun hop =>
        !inRanges net hop (ranges net (rangesText service.trustedProxies))) = some hop) :
    clientAddressOf net service request = hop := by
  unfold clientAddressOf
  simp [proxied.notRelayed, notFromFrontProcess proxied, proxied.believes,
    proxied.configured, trusted, isFound]

/-- Of a trusted peer's entries the last one outside is the answer. -/
theorem answers_hop (proxied : service.Proxied net request)
    (trusted :
      inRanges net (peerOf request)
        (ranges net (rangesText service.trustedProxies)) = true)
    {before after : List (List Char)}
    (isChain : forwardedFor request = before ++ hop :: after)
    (outside :
      inRanges net hop
        (ranges net (rangesText service.trustedProxies)) = false)
    (others :
      ∀ later ∈ after,
        inRanges net later
          (ranges net (rangesText service.trustedProxies)) = true) :
    clientAddressOf net service request = hop := by
  apply answers_found proxied trusted
  rw [isChain]
  exact find_reverse outside others

/-- What stands on the left of an untrusted hop and a comma is not read. -/
theorem answers_right (proxied : service.Proxied net request)
    (trusted :
      inRanges net (peerOf request)
        (ranges net (rangesText service.trustedProxies)) = true)
    {right : List Char}
    (anyOutside :
      ∃ hop ∈ forwardedFor { request with forwarded := right },
        inRanges net hop
          (ranges net (rangesText service.trustedProxies)) = false)
    (left : List Char) :
    clientAddressOf net service
        { request with forwarded := left ++ ',' :: right } =
      clientAddressOf net service { request with forwarded := right } := by
  obtain ⟨before, hop, after, isChain, outside, others⟩ := lastOutside anyOutside
  have proxiedAny (forwarded : List Char) :
      service.Proxied net { request with forwarded } :=
    ⟨proxied.believes, proxied.notWorker, proxied.notRelayed, proxied.configured⟩
  have isWhole :
      forwardedFor { request with forwarded := left ++ ',' :: right } =
        (forwardedFor { request with forwarded := left } ++ before) ++ hop :: after := by
    rw [forwardedFor_append_comma, isChain, append_assoc]
  calc
    clientAddressOf net service
        { request with forwarded := left ++ ',' :: right } = hop :=
      answers_hop (proxiedAny (left ++ ',' :: right)) trusted isWhole outside others
    _ = clientAddressOf net service { request with forwarded := right } :=
      (answers_hop (proxiedAny right) trusted isChain outside others).symm

/--
A peer outside the ranges is answered as itself, and a trusted peer's header is
read from the last hop outside them on.  An address is recognised in every
spelling, and no entry trusts more than it denotes, exactly where the entries
are plain.
-/
theorem trusted_hops_answer (net : Net) (lawful : net.Lawful) (service : Service)
    (request : Request) (proxied : service.Proxied net request) :
    (inRanges net (peerOf request)
        (ranges net (rangesText service.trustedProxies)) = false →
      clientAddressOf net service request = orText (peerOf request) unknown) ∧
      (inRanges net (peerOf request)
          (ranges net (rangesText service.trustedProxies)) = true →
        (∀ before hop after,
          forwardedFor request = before ++ hop :: after →
          inRanges net hop (ranges net (rangesText service.trustedProxies)) = false →
          (∀ later ∈ after,
            inRanges net later (ranges net (rangesText service.trustedProxies)) = true) →
          clientAddressOf net service request = hop) ∧
        ∀ left right,
          (∃ hop ∈ forwardedFor { request with forwarded := right },
            inRanges net hop (ranges net (rangesText service.trustedProxies)) = false) →
          clientAddressOf net service
              { request with forwarded := left ++ ',' :: right } =
            clientAddressOf net service
              { request with forwarded := right }) ∧
      (∀ entry, Recognises net [entry] ↔ Plain net entry) ∧
      ((∀ entry ∈ rangesText service.trustedProxies, Plain net entry) →
        Recognises net (rangesText service.trustedProxies)) := by
  refine ⟨answers_peer proxied, ?_, fun _ => recognises_iff_plain lawful, ?_⟩
  · intro trusted
    constructor
    · intro before hop after isChain outside others
      exact answers_hop proxied trusted isChain outside others
    · intro left right anyOutside
      exact answers_right proxied trusted anyOutside left
  · intro arePlain
    apply recognises_of_eq lawful
    intro entry isEntry
    exact subnetOf_eq_denoted lawful (arePlain entry isEntry)

/-! ## A small platform -/

/-- The IPv4 addresses a small platform reads, as their mapped forms. -/
def sampleFour (text : List Char) : Option Nat :=
  if text = "10.0.0.0".toList then
    some 0xffff0a000000
  else if text = "10.0.0.1".toList then
    some 0xffff0a000001
  else if text = "203.0.113.9".toList then
    some 0xffffcb007109
  else
    none

/-- A platform that reads these, their mapped forms and the loopback. -/
def sampleNet : Net where
  isIP text :=
    if (sampleFour text).isSome then
      4
    else if isMapped text ∧ (sampleFour (text.drop 7)).isSome then
      6
    else if text = "::1".toList then
      6
    else
      0
  numberOf text :=
    if (sampleFour text).isSome then
      sampleFour text
    else if isMapped text then
      sampleFour (text.drop 7)
    else if text = "::1".toList then
      some 1
    else
      none
  wholeNumber text := if trim text = [] then some 0 else prefixDigits text

theorem sampleFour_some {number : Nat} (isFour : sampleFour text = some number) :
    number / 2 ^ 32 = 0xffff ∧ isMapped text = false := by
  unfold sampleFour at isFour
  split at isFour
  · rename_i isText
    rw [isText, ← Option.some.inj isFour]
    decide
  · split at isFour
    · rename_i isText
      rw [isText, ← Option.some.inj isFour]
      decide
    · split at isFour
      · rename_i isText
        rw [isText, ← Option.some.inj isFour]
        decide
      · exact absurd isFour (by simp)

theorem sampleFour_mapped (isMappedForm : isMapped text = true) : sampleFour text = none := by
  cases isFour : sampleFour text with
  | none => rfl
  | some number =>
    rw [(sampleFour_some isFour).2] at isMappedForm
    exact absurd isMappedForm (by decide)

/-- A dotted text begins with a digit, and so does no mapped form. -/
theorem dotted_not_mapped {groups : Nat} (isDotted : dotted (groups + 1) text = true) :
    text ≠ "::1".toList ∧ isMapped text = false := by
  have hasDigits : text.takeWhile isDigit ≠ [] := by
    rw [dotted.eq_def] at isDotted
    dsimp only at isDotted
    rw [Bool.and_eq_true] at isDotted
    simpa using isDotted.1
  cases text with
  | nil => exact absurd rfl hasDigits
  | cons char rest =>
    have isDecimal : isDigit char = true := by
      by_contra notDecimal
      exact hasDigits (takeWhile_cons_of_neg notDecimal)
    have inRange : 48 ≤ char.toNat ∧ char.toNat ≤ 57 := of_decide_eq_true isDecimal
    have notColon : char ≠ ':' := by
      rintro rfl
      exact absurd inRange (by decide)
    have notUpper : char.toLower = char := by
      unfold Char.toLower
      rw [dif_neg]
      rintro ⟨isGreat, _⟩
      have : 65 ≤ char.toNat := isGreat
      omega
    constructor
    · intro isLoopback
      exact notColon (List.cons.inj isLoopback).1
    · simp [isMapped, mappedLead, notUpper, notColon]

/-- What stands behind the lead of a mapped form is neither. -/
theorem inner_of_mapped (isMappedForm : isMapped text = true) :
    text.drop 7 ≠ "::1".toList ∧ isMapped (text.drop 7) = false := by
  have isParts : mappedLead (text.take 7) = true ∧
      dotted 4 (text.drop 7) = true := of_decide_eq_true isMappedForm
  exact dotted_not_mapped isParts.2

theorem loopback_not_mapped : isMapped "::1".toList = false := by decide

/-- The small platform does what is documented. -/
theorem sampleNet_lawful : sampleNet.Lawful := by
  constructor
  · intro text number isNumber
    simp only [sampleNet] at isNumber ⊢
    split at isNumber
    · rename_i isFour
      exact .inl (if_pos isFour)
    · rename_i notFour
      refine .inr ?_
      rw [if_neg notFour]
      split at isNumber
      · rename_i isMappedForm
        exact if_pos ⟨isMappedForm, by rw [isNumber]; rfl⟩
      · split at isNumber
        · rename_i isLoopback
          simp [isLoopback]
        · exact absurd isNumber (by simp)
  · intro text number isNumber
    simp only [sampleNet] at isNumber
    split at isNumber
    · have := (sampleFour_some isNumber).1
      omega
    · split at isNumber
      · have := (sampleFour_some isNumber).1
        omega
      · split at isNumber
        · have := Option.some.inj isNumber
          omega
        · exact absurd isNumber (by simp)
  · intro text isFour
    simp only [sampleNet] at isFour ⊢
    split at isFour
    · rename_i isSome
      obtain ⟨number, isNumber⟩ := Option.isSome_iff_exists.mp isSome
      exact ⟨number, by rw [if_pos isSome, isNumber], (sampleFour_some isNumber).1⟩
    · split at isFour
      · exact absurd isFour (by decide)
      · split at isFour <;> exact absurd isFour (by decide)
  · intro text isMappedForm
    obtain ⟨notInner, notTwice⟩ := inner_of_mapped isMappedForm
    have notLoopback : text ≠ "::1".toList := by
      rintro rfl
      rw [loopback_not_mapped] at isMappedForm
      exact absurd isMappedForm (by decide)
    simp only [sampleNet, sampleFour_mapped isMappedForm, isMappedForm,
      notTwice, notInner, notLoopback]
    cases sampleFour (text.drop 7) <;> simp
  · decide
  · intro text number isDecimal _
    have notEmpty : trim text ≠ [] := by
      intro isEmpty
      simp [prefixDigits, isEmpty] at isDecimal
    simp only [sampleNet, if_neg notEmpty]
    exact isDecimal
  · intro text number read isDecimal isGreat isRead
    have notEmpty : trim text ≠ [] := by
      intro isEmpty
      simp [prefixDigits, isEmpty] at isDecimal
    simp only [sampleNet, if_neg notEmpty] at isRead
    rw [isDecimal, Option.some.injEq] at isRead
    omega

/-- A service that believes the proxies a text names. -/
def sampleService (entries : String) : Service where
  isRequestWorker := false
  trustProxy := true
  trustedProxies := .text entries.toList

/-- A request of a peer, with a header. -/
def sampleRequest (peer header : String) : Request where
  remoteAddress := peer.toList
  forwarded := header.toList
  cellClient := []

theorem samples_answer :
    ∃ service request,
      service.Proxied sampleNet request ∧
        inRanges sampleNet (peerOf request)
          (ranges sampleNet (rangesText service.trustedProxies)) = true ∧
        clientAddressOf sampleNet service request = "203.0.113.9".toList := by
  have proxied :
      (sampleService "10.0.0.0/8").Proxied sampleNet
        (sampleRequest "::ffff:10.0.0.1" "x, 203.0.113.9, 10.0.0.1") :=
    ⟨rfl, rfl, rfl, by decide⟩
  have trusted :
      inRanges sampleNet
        (peerOf (sampleRequest "::ffff:10.0.0.1" "x, 203.0.113.9, 10.0.0.1"))
        (ranges sampleNet (rangesText (sampleService "10.0.0.0/8").trustedProxies)) =
        true := by
    decide +kernel
  obtain ⟨_, isAnswer, _⟩ := trusted_hops_answer sampleNet sampleNet_lawful _ _ proxied
  exact ⟨_, _, proxied, trusted, (isAnswer trusted).1 ["x".toList] "203.0.113.9".toList
      ["10.0.0.1".toList] (by decide +kernel) (by decide +kernel)
      (by decide +kernel)⟩

/--
An entry whose bits were left out trusts every IPv4 address, so such a peer's
header is believed; one in the mapped form trusts none of what it denotes.
-/
theorem typo_trusts_everybody :
    sampleNet.Lawful ∧
      (sampleService "10.0.0.0/").Proxied sampleNet (sampleRequest "203.0.113.9" "anybody") ∧
      denoted sampleNet "10.0.0.0/".toList = none ∧
      inRanges sampleNet "203.0.113.9".toList (ranges sampleNet ["10.0.0.0/".toList]) = true ∧
      clientAddressOf sampleNet (sampleService "10.0.0.0/")
        (sampleRequest "203.0.113.9" "anybody") = "anybody".toList ∧
      ¬Recognises sampleNet ["10.0.0.0/".toList] ∧
      ¬Recognises sampleNet ["::ffff:10.0.0.0/104".toList] := by
  refine ⟨sampleNet_lawful, ⟨rfl, rfl, rfl, by decide⟩, by decide +kernel,
    by decide +kernel, by decide +kernel, ?_, ?_⟩
  · intro recognises
    obtain ⟨_, _, _, isEntry, _, isDenoted, _⟩ :=
      (recognises "203.0.113.9".toList).mp (by decide +kernel)
    rw [mem_singleton.mp isEntry] at isDenoted
    have nothing : denoted sampleNet "10.0.0.0/".toList = none := by decide +kernel
    rw [nothing] at isDenoted
    exact absurd isDenoted (by simp)
  · intro recognises
    have isInside :
        inRanges sampleNet "10.0.0.1".toList
          (ranges sampleNet ["::ffff:10.0.0.0/104".toList]) = true := by
      apply (recognises "10.0.0.1".toList).mpr
      exact ⟨0xffff0a000001, by decide +kernel, _, mem_singleton_self _,
        { number := 0xffff0a000000, bits := 104 }, by decide +kernel,
        by decide +kernel⟩
    exact absurd isInside (by decide +kernel)

end Answers

end IyaSts.ClientAddress
