import IyaSts.Krb5PacVerifies

namespace IyaSts.Krb5Pac

/-!
# What a re-signed PAC carries

Replacing the client claims or the delegation information leaves every other
buffer as it was and in its order.
-/

open CursorCodec List
open Krb5Ndr
open Krb5Profiles

variable {α : Type} {test : α → Bool} {item : α} {items : List α} {i : Nat}

/-- Inserting an item a test does not pass changes nothing the test keeps. -/
theorem filter_insertIdx_other (fails : test item = false) (items : List α) (i : Nat) :
    (items.insertIdx i item).filter test = items.filter test := by
  induction items generalizing i with
  | nil =>
    cases i with
    | zero => simp [fails]
    | succ i => rfl
  | cons first items ih =>
    cases i with
    | zero => simp [fails]
    | succ i => rw [insertIdx_succ_cons, filter_cons, filter_cons, ih]

/-- Inserted among items a test does not pass, an item it passes is alone. -/
theorem filter_insertIdx_only (passes : test item = true)
    (fail : ∀ other ∈ items, test other = false) (inside : i ≤ items.length) :
    (items.insertIdx i item).filter test = [item] := by
  induction items generalizing i with
  | nil =>
    cases i with
    | zero => simp [passes]
    | succ i => simp at inside
  | cons first items ih =>
    have failsFirst := fail first mem_cons_self
    cases i with
    | zero =>
      have noneLeft : (first :: items).filter test = [] := by
        rw [filter_eq_nil_iff]
        intro other isOther
        simp [fail other isOther]
      rw [insertIdx_zero, filter_cons_of_pos passes, noneLeft]
    | succ i =>
      rw [insertIdx_succ_cons, filter_cons_of_neg (by simp [failsFirst])]
      exact ih
        (fun other isOther => fail other (mem_cons_of_mem _ isOther))
        (Nat.le_of_succ_le_succ inside)

theorem mem_of_mem_insertIdx {item other : α} (isMember : other ∈ items.insertIdx i item) :
    other = item ∨ other ∈ items := by
  by_cases inside : i ≤ items.length
  · exact mem_cons.mp ((perm_insertIdx item items inside).mem_iff.mp isMember)
  · rw [insertIdx_of_length_lt (Nat.lt_of_not_le inside)] at isMember
    exact .inr isMember

section

variable {Value : Type}
variable (encoders : ContentEncoders Value)

/-- Entries of a type. -/
def ofType (type : Nat) (e : PacEntry) : Bool := e.type == type

theorem claimsPosition_le (before entries : List PacEntry) :
    claimsPosition before entries ≤ entries.length := by
  unfold claimsPosition
  dsimp only
  split
  · exact Nat.le_refl _
  · exact Nat.min_le_right _ _

variable {encoders}

variable {entries result : List PacEntry}

/-- Replacing the client claims: what is kept, and what is there instead. -/
theorem replaceClaims_does {clientClaims : Option (Option Value)}
    (replaces : replaceClaims encoders entries clientClaims = .ok result) :
    (∀ test : PacEntry → Bool,
        (clientClaims.isSome = true →
          ∀ e, ofType TYPE.clientClaims e = true → test e = false) →
            result.filter test = entries.filter test) ∧
      (clientClaims = some none → result.filter (ofType TYPE.clientClaims) = []) ∧
      (∀ claims,
        clientClaims = some (some claims) →
          ∃ bytes,
            encoders.encodeClaimsSetMetadata claims = .ok bytes ∧
              result.filter (ofType TYPE.clientClaims) =
                [{ type := TYPE.clientClaims, bytes := bytes }]) ∧
      ∀ e ∈ result, e ∈ entries ∨ e.type = TYPE.clientClaims := by
  have otherFails :
      ∀ e ∈ entries.filter fun e => e.type != TYPE.clientClaims,
        ofType TYPE.clientClaims e = false := by
    intro e isOther
    simpa [ofType] using (mem_filter.mp isOther).2
  have othersKept
      (test : PacEntry → Bool)
      (fails : ∀ e, ofType TYPE.clientClaims e = true → test e = false) :
      (entries.filter fun e => e.type != TYPE.clientClaims).filter test = entries.filter test := by
    rw [filter_filter]
    apply filter_congr
    intro e _
    by_cases isClaims : e.type = TYPE.clientClaims
    · simp [fails e (by simpa [ofType] using isClaims)]
    · simp [isClaims]
  cases clientClaims with
  | none =>
    cases replaces
    exact ⟨fun _ _ => rfl, nofun, nofun, fun e isEntry => .inl isEntry⟩
  | some stated =>
    cases stated with
    | none =>
      cases replaces
      refine ⟨fun test fails => othersKept test (fails rfl), ?_, nofun, ?_⟩
      · intro _
        rw [filter_eq_nil_iff]
        intro e isOther
        simp [otherFails e isOther]
      · intro e isOther
        exact .inl (mem_filter.mp isOther).1
    | some claims =>
      rw [replaceClaims] at replaces
      cases isEncoded : encoders.encodeClaimsSetMetadata claims with
      | error failure =>
        rw [isEncoded] at replaces
        cases replaces
      | ok bytes =>
        rw [isEncoded] at replaces
        cases replaces
        refine ⟨fun test fails => ?_, nofun, ?_, ?_⟩
        · rw [filter_insertIdx_other (fails rfl _ rfl)]
          exact othersKept test (fails rfl)
        · intro claims isClaims
          cases isClaims
          exact ⟨bytes, isEncoded, filter_insertIdx_only rfl otherFails (claimsPosition_le _ _)⟩
        · intro e isEntry
          rcases mem_of_mem_insertIdx isEntry with rfl | isOther
          · exact .inr rfl
          · exact .inl (mem_filter.mp isOther).1

/-- Replacing the delegation information likewise. -/
theorem replaceDelegation_does {delegationInfo : Option Value}
    (replaces : replaceDelegation encoders entries delegationInfo = .ok result) :
    (∀ test : PacEntry → Bool,
        (delegationInfo.isSome = true →
          ∀ e, ofType TYPE.delegationInfo e = true → test e = false) →
            result.filter test = entries.filter test) ∧
      (∀ info,
        delegationInfo = some info →
          ∃ bytes,
            encoders.encodeDelegationInfo info = .ok bytes ∧
              result.filter (ofType TYPE.delegationInfo) =
                [{ type := TYPE.delegationInfo, bytes := bytes }]) ∧
      ∀ e ∈ result, e ∈ entries ∨ e.type = TYPE.delegationInfo := by
  cases delegationInfo with
  | none =>
    cases replaces
    exact ⟨fun _ _ => rfl, nofun, fun e isEntry => .inl isEntry⟩
  | some info =>
    rw [replaceDelegation] at replaces
    cases isEncoded : encoders.encodeDelegationInfo info with
    | error failure =>
      rw [isEncoded] at replaces
      cases replaces
    | ok bytes =>
      rw [isEncoded] at replaces
      cases replaces
      refine ⟨fun test fails => ?_, ?_, ?_⟩
      · rw [filter_append, filter_filter]
        have added : List.filter test [{ type := TYPE.delegationInfo, bytes := bytes }] = [] := by
          simp [fails rfl { type := TYPE.delegationInfo, bytes := bytes } rfl]
        rw [added, append_nil]
        apply filter_congr
        intro e _
        by_cases isInfo : e.type = TYPE.delegationInfo
        · simp [fails rfl e (by simpa [ofType] using isInfo)]
        · simp [isInfo]
      · intro info isInfo
        cases isInfo
        refine ⟨bytes, isEncoded, ?_⟩
        have noneLeft :
            (entries.filter fun e =>
                e.type != TYPE.delegationInfo).filter
                (ofType TYPE.delegationInfo) = [] := by
          rw [filter_eq_nil_iff]
          intro e isOther
          have notInfo := (mem_filter.mp isOther).2
          simpa [ofType] using notInfo
        rw [filter_append, noneLeft]
        rfl
      · intro e isEntry
        rcases mem_append.mp isEntry with isOther | isAdded
        · exact .inl (mem_filter.mp isOther).1
        · rw [mem_singleton.mp isAdded]
          exact .inr rfl

end

end IyaSts.Krb5Pac
