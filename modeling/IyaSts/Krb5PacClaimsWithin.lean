import IyaSts.Fallible
import IyaSts.Krb5PacClaimsSizes

namespace IyaSts.Krb5PacClaims

/-!
# Claims within the reader's limits

What a caller states, as it should be read back, and the limits within which it
is: on the counts, on the strings, on the source types, on the identifiers' last
code unit and on the size.
-/

open CursorCodec List
open Krb5Ndr

/-! ## What is meant by what is stated -/

/-- The integer a stated value is, where it is one. -/
def StatedValue.integer (value : StatedValue) : Int :=
  match integerOf value with
  | .ok v => v
  | .error _ => 0

/-- Whether a stated value is one of those that stand for true. -/
def StatedValue.isTrue (value : StatedValue) : Bool := (booleanOf value).getD false

/-- A claim as its statement means it. -/
def StatedClaim.meant (claim : StatedClaim) : Claim where
  id := claim.id.getD []
  values :=
    if claim.type = CLAIM_TYPE.string then
      .string (claim.values.map StatedValue.spelled)
    else if claim.type = CLAIM_TYPE.boolean then
      .boolean (claim.values.map StatedValue.isTrue)
    else if claim.type = CLAIM_TYPE.int64 then
      .int64 (claim.values.map StatedValue.integer)
    else
      .uint64 (claim.values.map StatedValue.integer)

/-- An array as its statement means it: of the directory, unless it says
otherwise. -/
def StatedArray.meant (array : StatedArray) : ClaimsArray where
  sourceType := array.sourceType.getD 1
  claims := array.claims.map StatedClaim.meant

variable {ι α : Type} {id : Text} {value : StatedValue} {claim : StatedClaim}
    {values : ClaimValues}

variable {items : List ι} (s : Text)

/-- A loop that succeeds with what each of its items is meant to be. -/
theorem mapM_meant {one : ι → Except String α} {meant : ι → α} {property : α → Prop}
    {results : List α}
    (each : ∀ item result, one item = .ok result → result = meant item ∧ property result)
    (succeeds : items.mapM one = .ok results) :
    results = items.map meant ∧ ∀ result ∈ results, property result := by
  rw [Fallible.mapM_eq_ok_iff] at succeeds
  induction succeeds with
  | nil => exact ⟨rfl, nofun⟩
  | @cons item result items results isResult _ ih =>
    obtain ⟨isMeant, holds⟩ := each item result isResult
    refine ⟨?_, forall_mem_cons.mpr ⟨holds, ih.2⟩⟩
    rw [map_cons, ← isMeant, ← ih.1]

theorem of_map_ok {α β : Type} {result : Except String α} {after : α → β} {value : β}
    (succeeds : result.map after = .ok value) :
    ∃ one, result = .ok one ∧ after one = value := by
  cases result with
  | error failure => cases succeeds
  | ok one =>
    cases succeeds
    exact ⟨one, rfl, rfl⟩

/-- A value of a string claim is the text it is spelled as, without NUL. -/
theorem claimString_ok {text : Text} (accepted : claimString id value = .ok text) :
    text = value.spelled ∧ 0 ∉ text := by
  unfold claimString at accepted
  split at accepted
  · cases accepted
  split at accepted
  · cases accepted
  rename_i noNul
  cases accepted
  refine ⟨rfl, fun hasNul => noNul ?_⟩
  exact contains_iff_mem.mpr hasNul

/-- Which value a Boolean stands for does not depend on the claim's name. -/
theorem claimBoolean_ok {truth : Bool} (accepted : claimBoolean id value = .ok truth) :
    truth = value.isTrue := by
  unfold claimBoolean at accepted
  split at accepted
  · rename_i isBoolean
    cases accepted
    rw [StatedValue.isTrue, isBoolean, Option.getD_some]
  · cases accepted

/-- An integer of a claim is the stated one, in its type's range. -/
theorem claimBigInt_ok {type : Nat} {v : Int} (accepted : claimBigInt value type id = .ok v) :
    v = value.integer ∧ (claimRange type).1 ≤ v ∧ v ≤ (claimRange type).2 := by
  unfold claimBigInt at accepted
  unfold StatedValue.integer
  split at accepted
  · cases accepted
  · rename_i isInteger
    split at accepted
    · cases accepted
    · rename_i inRange
      cases accepted
      rw [isInteger]
      exact ⟨rfl, by omega⟩

/-- Accepted values are the stated ones, and their type can hold them. -/
theorem claimValuesFor_ok (accepted : claimValuesFor id claim.type claim.values = .ok values) :
    values = claim.meant.values ∧ values.Fit := by
  unfold claimValuesFor at accepted
  split at accepted
  · cases accepted
  unfold StatedClaim.meant
  split at accepted <;> rename_i isString
  · obtain ⟨texts, areTexts, rfl⟩ := of_map_ok accepted
    obtain ⟨rfl, haveNoNul⟩ := mapM_meant (fun _ _ => claimString_ok) areTexts
    rw [if_pos isString]
    exact ⟨rfl, haveNoNul⟩
  split at accepted <;> rename_i isBoolean
  · obtain ⟨truths, areTruths, rfl⟩ := of_map_ok accepted
    obtain ⟨rfl, _⟩ := mapM_meant (fun _ _ isTruth => ⟨claimBoolean_ok isTruth, trivial⟩) areTruths
    rw [if_neg isString, if_pos isBoolean]
    exact ⟨rfl, trivial⟩
  split at accepted <;> rename_i isInt64
  · obtain ⟨integers, areIntegers, rfl⟩ := of_map_ok accepted
    obtain ⟨rfl, inRange⟩ := mapM_meant (fun _ _ => claimBigInt_ok) areIntegers
    rw [if_neg isString, if_neg isBoolean, if_pos isInt64]
    refine ⟨rfl, fun v isValue => ?_⟩
    have range := inRange v isValue
    rw [claimRange, if_pos isInt64] at range
    simp only [IsInteger, if_true]
    omega
  · obtain ⟨integers, areIntegers, rfl⟩ := of_map_ok accepted
    obtain ⟨rfl, inRange⟩ := mapM_meant (fun _ _ => claimBigInt_ok) areIntegers
    rw [if_neg isString, if_neg isBoolean, if_neg isInt64]
    refine ⟨rfl, fun v isValue => ?_⟩
    have range := inRange v isValue
    rw [claimRange, if_neg isInt64] at range
    simp only [IsInteger, Bool.false_eq_true, if_false]
    omega

/-- An accepted claim is the stated one, with an identifier. -/
theorem prepareClaim_ok {prepared : Claim} (accepted : prepareClaim claim = .ok prepared) :
    prepared = claim.meant ∧ prepared.values.Fit := by
  unfold prepareClaim at accepted
  split at accepted
  · cases accepted
  rename_i id isId
  split at accepted
  · cases accepted
  split at accepted
  · cases accepted
  obtain ⟨values, areValues, rfl⟩ := of_map_ok accepted
  obtain ⟨rfl, fit⟩ := claimValuesFor_ok areValues
  refine ⟨?_, fit⟩
  rw [StatedClaim.meant, isId]
  rfl

/-- Accepted arrays are the stated ones, and their values' types hold them. -/
theorem prepare_ok {arrays : List StatedArray} {prepared : List ClaimsArray}
    (accepted : prepare arrays = .ok prepared) :
    prepared = arrays.map StatedArray.meant ∧ Fit prepared := by
  refine mapM_meant (fun array result isResult => ?_) accepted
  obtain ⟨claims, areClaims, isArray⟩ := (Fallible.bind_eq_ok_iff _ _ _).mp isResult
  cases isArray
  obtain ⟨rfl, fit⟩ := mapM_meant (fun _ _ => prepareClaim_ok) areClaims
  exact ⟨rfl, fit⟩

/-! ## The limits -/

/-- Whether a terminated string passes the reader's limit on its length. -/
def Short (s : Text) : Prop := s.length < maxArrayElements

instance (s : Text) : Decidable (Short s) :=
  inferInstanceAs (Decidable (s.length < maxArrayElements))

/-- The limits of a claim. -/
structure Claim.Within (claim : Claim) : Prop where
  idShort : Short claim.id
  idEnds : claim.id.getLast? ≠ some 0
  fewValues : claim.values.length ≤ maxArrayElements
  valuesShort : ∀ values, claim.values = .string values → ∀ s ∈ values, Short s

/-- The limits of an array. -/
structure ClaimsArray.Within (array : ClaimsArray) : Prop where
  sourceTypeFits : array.sourceType < 2 ^ 16
  fewClaims : array.claims.length ≤ maxArrayElements
  eachClaim : ∀ claim ∈ array.claims, claim.Within

/-- The limits on what is encoded. -/
structure Within (arrays : List ClaimsArray) : Prop where
  fewArrays : arrays.length ≤ maxArrayElements
  eachArray : ∀ array ∈ arrays, array.Within
  size : metadataSize arrays ≤ maxNdrBytes

/-- A claim as it is read when nothing is lost. -/
def Claim.read (claim : Claim) : ReadClaim where
  id := some claim.id
  type := claim.values.type
  typeName := claimTypeName claim.values.type
  values := claim.values.read

/-- An array as it is read when nothing is lost. -/
def ClaimsArray.read (array : ClaimsArray) : ReadArray where
  sourceType := array.sourceType
  sourceTypeName := claimsSourceTypeName array.sourceType
  claimsCount := array.claims.length
  claims := array.claims.map Claim.read

/-- Every item answers as is said of it just when all of them do. -/
theorem mapM_eq_some_map_iff {answer : ι → Option α} {value : ι → α} :
    items.mapM answer = some (items.map value) ↔
      ∀ item ∈ items, answer item = some (value item) := by
  induction items with
  | nil => simp
  | cons item items ih =>
    rw [mapM_cons, forall_mem_cons, ← ih]
    cases answer item with
    | none => simp
    | some one =>
      cases items.mapM answer with
      | none => simp
      | some rest => simp

theorem trimTrailingNuls_eq_self_iff : trimTrailingNuls s = s ↔ s.getLast? ≠ some 0 := by
  rw [trimTrailingNuls, rdropWhile_eq_self_iff]
  constructor
  · intro lastIsNot isLast
    have notEmpty : s ≠ [] := by
      rintro rfl
      cases isLast
    have isNul : s.getLast notEmpty = 0 := by
      rw [List.getLast?_eq_some_getLast notEmpty] at isLast
      exact Option.some.inj isLast
    exact lastIsNot notEmpty (by rw [isNul]; rfl)
  · intro lastIsNot notEmpty isNul
    apply lastIsNot
    rw [List.getLast?_eq_some_getLast notEmpty]
    exact congrArg some (by simpa using isNul)

/-- A terminated string comes back when it is short and does not end in NUL. -/
theorem terminatedAnswer_eq_iff :
    terminatedAnswer s = some s ↔ Short s ∧ s.getLast? ≠ some 0 := by
  rw [terminatedAnswer, ← trimTrailingNuls_eq_self_iff, Short]
  split <;> rename_i tooLong
  · constructor
    · intro isNone
      cases isNone
    · intro both
      omega
  · rw [Option.some.injEq]
    exact ⟨fun isSelf => ⟨by omega, isSelf⟩, And.right⟩

/-- The values come back when their strings are short. -/
theorem valuesAnswer_eq_iff (fit : values.Fit) :
    valuesAnswer values = some values.read ↔
      ∀ strings, values = .string strings → ∀ s ∈ strings, Short s := by
  cases values with
  | int64 values => exact ⟨fun _ => nofun, fun _ => rfl⟩
  | uint64 values => exact ⟨fun _ => nofun, fun _ => rfl⟩
  | boolean values => exact ⟨fun _ => nofun, fun _ => rfl⟩
  | string values =>
    have each (s : Text) (isString : s ∈ values) :
        (terminatedAnswer s).map ReadValue.text = some (.text s) ↔ Short s := by
      have noNul : s.getLast? ≠ some 0 := fun isLast => fit s isString (mem_of_getLast? isLast)
      rw [Option.map_eq_some_iff]
      constructor
      · rintro ⟨text, isText, isSame⟩
        cases isSame
        exact ((terminatedAnswer_eq_iff s).mp isText).1
      · intro isShort
        exact ⟨s, (terminatedAnswer_eq_iff s).mpr ⟨isShort, noNul⟩, rfl⟩
    rw [valuesAnswer, ClaimValues.read, mapM_eq_some_map_iff]
    constructor
    · rintro allAnswer strings isStrings s isString
      cases isStrings
      exact (each s isString).mp (allAnswer s isString)
    · intro allShort s isString
      exact (each s isString).mpr (allShort values rfl s isString)

/-- A claim comes back just when it is within the limits. -/
theorem claimAnswer_eq_iff {claim : Claim} (fit : claim.values.Fit) :
    claimAnswer claim = some claim.read ↔ claim.Within := by
  rw [claimAnswer]
  constructor
  · intro answers
    obtain ⟨id, isId, answers⟩ := Option.bind_eq_some_iff.mp answers
    obtain ⟨values, areValues, isRead⟩ := Option.map_eq_some_iff.mp answers
    have sameId : id = claim.id := Option.some.inj (congrArg ReadClaim.id isRead)
    have sameValues : values = claim.values.read := congrArg ReadClaim.values isRead
    subst sameId
    subst sameValues
    split at areValues <;> rename_i limit
    · cases areValues
    obtain ⟨idShort, idEnds⟩ := (terminatedAnswer_eq_iff claim.id).mp isId
    exact {
      idShort := idShort
      idEnds := idEnds
      fewValues := Nat.not_lt.mp limit
      valuesShort := (valuesAnswer_eq_iff fit).mp areValues
    }
  · intro within
    rw [(terminatedAnswer_eq_iff claim.id).mpr
        ⟨within.idShort, within.idEnds⟩, Option.bind_some,
      if_neg (Nat.not_lt.mpr within.fewValues),
      (valuesAnswer_eq_iff fit).mpr within.valuesShort]
    rfl

/-- An array comes back just when it is within the limits. -/
theorem arrayAnswer_eq_iff {array : ClaimsArray} (fit : ∀ claim ∈ array.claims, claim.values.Fit) :
    arrayAnswer array = some array.read ↔ array.Within := by
  have claims :
      array.claims.mapM claimAnswer =
          some (array.claims.map Claim.read) ↔
        ∀ claim ∈ array.claims, claim.Within := by
    rw [mapM_eq_some_map_iff]
    exact forall₂_congr fun claim isClaim => claimAnswer_eq_iff (fit claim isClaim)
  rw [arrayAnswer, claimsAnswer]
  constructor
  · intro answers
    obtain ⟨read, areRead, isRead⟩ := Option.map_eq_some_iff.mp answers
    have sameSource : array.sourceType % 2 ^ 16 = array.sourceType :=
      congrArg ReadArray.sourceType isRead
    have sameClaims : read = array.claims.map Claim.read := congrArg ReadArray.claims isRead
    subst sameClaims
    split at areRead <;> rename_i limit
    · cases areRead
    exact {
      sourceTypeFits := by omega
      fewClaims := Nat.not_lt.mp limit
      eachClaim := claims.mp areRead
    }
  · intro within
    have sameSource : array.sourceType % 2 ^ 16 = array.sourceType :=
      Nat.mod_eq_of_lt within.sourceTypeFits
    have sameCount : array.claims.length % 2 ^ 32 = array.claims.length := by
      apply Nat.mod_eq_of_lt
      have few := within.fewClaims
      simp only [maxArrayElements] at few
      omega
    rw [if_neg (Nat.not_lt.mpr within.fewClaims),
      claims.mpr within.eachClaim, sameSource, sameCount]
    rfl

/-- The arrays come back just when each is within the limits. -/
theorem arraysAnswer_eq_iff {arrays : List ClaimsArray} (fit : Fit arrays) :
    arraysAnswer arrays = some (arrays.map ClaimsArray.read) ↔
      arrays.length ≤ maxArrayElements ∧ ∀ array ∈ arrays, array.Within := by
  have each :
      arrays.mapM arrayAnswer = some (arrays.map ClaimsArray.read) ↔
        ∀ array ∈ arrays, array.Within := by
    rw [mapM_eq_some_map_iff]
    exact forall₂_congr fun array isArray => arrayAnswer_eq_iff (fit array isArray)
  rw [arraysAnswer]
  split <;> rename_i limit
  · constructor
    · intro isNone
      cases isNone
    · intro both
      omega
  · rw [each]
    exact ⟨fun within => ⟨Nat.not_lt.mp limit, within⟩, And.right⟩

end IyaSts.Krb5PacClaims
