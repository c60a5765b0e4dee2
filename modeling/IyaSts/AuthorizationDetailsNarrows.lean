import IyaSts.AuthorizationDetails

namespace IyaSts.AuthorizationDetails

/-!
# What a narrowed token keeps of its grant

A request that names every member of a granted detail covering it keeps each
restriction.  A request that leaves one out has none of it on the token.
-/

open Json JsonValue List

/-! ## Plain values are compared by what they say -/

mutual

/-- Nothing is lost of a value without `__proto__`. -/
theorem canonical_of_plain (value : JsonValue) (isPlain : value.plain = true) :
    canonical value = value.byName := by
  match value with
  | .null => rfl
  | .boolean _ => rfl
  | .number _ => rfl
  | .infinite _ => rfl
  | .string _ => rfl
  | .array elements => rw [canonical, byName, canonicalElements_of_plain elements isPlain]
  | .object members =>
    rw [canonical, byName, canonicalMembers_of_plain members isPlain, filter_eq_self.mpr]
    intro member isMember
    rw [sortByName, mem_mergeSort] at isMember
    have inMembers := mem_of_mem_entries isMember
    rw [byNameMembers_eq] at inMembers
    obtain ⟨held, isHeld, rfl⟩ := mem_map.mp inMembers
    have named := (plainMembers_iff members).mp isPlain held isHeld
    simpa using named.1

theorem canonicalElements_of_plain (elements : List JsonValue)
    (arePlain : plainElements elements = true) :
    canonicalElements elements = byNameElements elements := by
  match elements with
  | [] => rfl
  | element :: rest =>
    rw [plainElements, Bool.and_eq_true] at arePlain
    rw [canonicalElements, byNameElements, canonical_of_plain element arePlain.1,
      canonicalElements_of_plain rest arePlain.2]

theorem canonicalMembers_of_plain (members : List (String × JsonValue))
    (arePlain : plainMembers members = true) :
    canonicalMembers members = byNameMembers members := by
  match members with
  | [] => rfl
  | (name, value) :: rest =>
    rw [plainMembers, Bool.and_eq_true, Bool.and_eq_true] at arePlain
    rw [canonicalMembers, byNameMembers, canonical_of_plain value arePlain.1.2,
      canonicalMembers_of_plain rest arePlain.2]

end

/-- Plain values of one canonical text are one. -/
theorem same_of_canonicalText {value other : JsonValue} (isPlain : value.plain = true)
    (otherPlain : other.plain = true) (sameText : canonicalText value = canonicalText other) :
    Same value other := by
  rw [canonicalText, canonicalText, canonical_of_plain value isPlain,
    canonical_of_plain other otherPlain] at sameText
  exact same_of_stringify isPlain otherPlain sameText

/-! ## Restrictions -/

/-- A member of a token's detail, by what the granted one says of it. -/
def Agrees (name : String) (granted held : JsonValue) : Prop :=
  if name ∈ commonArrays then
    ∃ allowed asked, textsOf granted = some allowed ∧ textsOf held = some asked ∧ asked ⊆ allowed
  else
    Same granted held

/-- A detail of the granted one's type that keeps all it restricts. -/
def Keeps (granted held : Detail) : Prop :=
  granted.type = held.type ∧
    ∀ name value, granted.members.lookup name = some value →
      ∃ kept, held.members.lookup name = some kept ∧ Agrees name value kept

theorem Keeps.refl (granted : Detail) : Keeps granted granted := by
  refine ⟨rfl, fun name value isHeld => ⟨value, isHeld, ?_⟩⟩
  unfold Agrees
  split
  · rename_i isCommon
    obtain ⟨texts, areTexts, _⟩ := granted.areTexts name isCommon value isHeld
    exact ⟨texts, texts, areTexts, areTexts, List.Subset.refl texts⟩
  · rfl

theorem Agrees.trans {name : String} {granted between held : JsonValue}
    (first : Agrees name granted between) (second : Agrees name between held) :
    Agrees name granted held := by
  unfold Agrees at *
  split at first
  · rename_i isCommon
    rw [if_pos isCommon] at second ⊢
    obtain ⟨allowed, middle, areAllowed, areMiddle, isSubset⟩ := first
    obtain ⟨middle', asked, areMiddle', areAsked, isSubset'⟩ := second
    rw [areMiddle, Option.some.injEq] at areMiddle'
    subst areMiddle'
    exact ⟨allowed, asked, areAllowed, areAsked, List.Subset.trans isSubset' isSubset⟩
  · rename_i notCommon
    rw [if_neg notCommon] at second ⊢
    exact Eq.trans first second

theorem Keeps.trans {granted between held : Detail} (first : Keeps granted between)
    (second : Keeps between held) :
    Keeps granted held := by
  refine ⟨first.1.trans second.1, fun name value isGranted => ?_⟩
  obtain ⟨middle, isMiddle, agrees⟩ := first.2 name value isGranted
  obtain ⟨kept, isKept, agrees'⟩ := second.2 name middle isMiddle
  exact ⟨kept, isKept, agrees.trans agrees'⟩

/-! ## What covering says -/

/-- The names of a detail's members. -/
def Detail.names (detail : Detail) : List String := (entries detail.members).map Prod.fst

variable {detail granted requested : Detail} {name : String}

theorem Detail.mem_names {name : String} :
    name ∈ detail.names ↔ ∃ value, detail.members.lookup name = some value := by
  simp [names, mem_entries_iff]

/-- The members of a plain detail are plain. -/
theorem plain_of_lookup (isPlain : detail.value.plain = true) {value : JsonValue}
    (isHeld : detail.members.lookup name = some value) :
    value.plain = true := by
  have inEntries := (mem_entries_iff detail.members name value).mpr isHeld
  exact ((plainMembers_iff detail.members).mp isPlain _ (mem_of_mem_entries inEntries)).2

/-- A named member of a covered request agrees with the granted one. -/
theorem agrees_of_covers (isCovered : covers granted requested = true)
    (grantedPlain : granted.value.plain = true) (requestedPlain : requested.value.plain = true)
    {value kept : JsonValue} (isGranted : granted.members.lookup name = some value)
    (isRequested : requested.members.lookup name = some kept) :
    Agrees name value kept := by
  rw [covers, Bool.and_eq_true, decide_eq_true_eq, all_eq_true]
    at isCovered
  have isMember := isCovered.2 (name, kept) ((mem_entries_iff _ _ _).mpr isRequested)
  unfold coversMember at isMember
  simp only at isMember
  split at isMember
  · rename_i isType
    subst isType
    rw [granted.isType, Option.some.injEq] at isGranted
    rw [requested.isType, Option.some.injEq] at isRequested
    rw [Agrees, if_neg (by decide), ← isGranted, ← isRequested, isCovered.1]
    rfl
  split at isMember
  · rename_i isCommon
    rw [isGranted, Option.bind_some] at isMember
    rw [Agrees, if_pos isCommon]
    split at isMember
    · rename_i allowed asked areAllowed areAsked
      refine ⟨allowed, asked, areAllowed, areAsked, fun one isOne => ?_⟩
      have isAllowed := all_eq_true.mp isMember one isOne
      simpa using isAllowed
    · cases isMember
  · rename_i notCommon
    rw [JsObject.read, isGranted, deepEqual, decide_eq_true_eq] at isMember
    rw [Agrees, if_neg notCommon]
    exact
      same_of_canonicalText (plain_of_lookup grantedPlain isGranted)
        (plain_of_lookup requestedPlain isRequested) isMember

/-- A covered request that names all the granted one says keeps it all. -/
theorem keeps_of_covers (isCovered : covers granted requested = true)
    (namesAll : granted.names ⊆ requested.names) (grantedPlain : granted.value.plain = true)
    (requestedPlain : requested.value.plain = true) :
    Keeps granted requested := by
  have sameType := isCovered
  rw [covers, Bool.and_eq_true, decide_eq_true_eq] at sameType
  refine ⟨sameType.1, fun name value isGranted => ?_⟩
  have isNamed : name ∈ requested.names := namesAll (Detail.mem_names.mpr ⟨value, isGranted⟩)
  obtain ⟨kept, isRequested⟩ := Detail.mem_names.mp isNamed
  exact
    ⟨kept, isRequested,
      agrees_of_covers isCovered grantedPlain requestedPlain isGranted isRequested⟩

theorem append_ne_empty {first : String} (isSome : first.toList ≠ []) (rest : String) :
    first ++ rest ≠ "" := by
  intro isEmpty
  have chars := congrArg String.toList isEmpty
  rw [String.toList_append] at chars
  exact isSome (append_eq_nil_iff.mp chars).1

theorem notCovered_ne_empty (place : Nat) (one : Detail) (grant : List Detail) :
    notCovered place one grant ≠ "" := by
  unfold notCovered
  exact append_ne_empty (by decide) _

/-- Where there is no problem, each detail is covered. -/
theorem covered_of_noProblem {place : Nat} {requested grant : List Detail}
    (noProblem : coveredProblemFrom place requested grant = "") :
    ∀ one ∈ requested, ∃ granted ∈ grant, covers granted one = true := by
  induction requested generalizing place with
  | nil => simp
  | cons one rest ih =>
    rw [coveredProblemFrom] at noProblem
    split at noProblem
    · rename_i isCovered
      rw [any_eq_true] at isCovered
      rw [forall_mem_cons]
      exact ⟨isCovered, ih noProblem⟩
    · exact absurd noProblem (notCovered_ne_empty _ _ _)

/-! ## Chains of token requests -/

/--
A request each of whose details, but for those of a built-in type, names every
member of a detail on the token that covers it, both without `__proto__` and
without infinite numbers.
-/
def SaysAll (held request : List Detail) : Prop :=
  ∀ one ∈ request,
    one.type ∈ builtInTypes ∨
      ∃ granted ∈ held,
        covers granted one = true ∧
          granted.names ⊆ one.names ∧
          granted.value.plain = true ∧ one.value.plain = true

/-- The details on a token, after token requests that each say all. -/
inductive Narrowed (grant : List Detail) : List Detail → Prop where
  | granted : Narrowed grant grant
  | narrowed
      {held request : List Detail}
      (before : Narrowed grant held)
      (passes : coveredProblem request held = "")
      (saysAll : SaysAll held request) :
      Narrowed grant (narrow request held)

/-- What one request narrows keeps a detail that was on the token. -/
theorem narrow_keeps {held request : List Detail} (passes : coveredProblem request held = "")
    (saysAll : SaysAll held request) :
    ∀ detail ∈ narrow request held, ∃ granted ∈ held, Keeps granted detail := by
  intro detail isDetail
  obtain ⟨one, isOne, rfl⟩ := mem_map.mp isDetail
  unfold narrowOne
  split
  · rename_i notBuiltIn
    rcases saysAll one isOne with isBuiltIn | ⟨granted, isGranted, saysIt⟩
    · exact absurd isBuiltIn notBuiltIn
    · obtain ⟨isCovered, namesAll, grantedPlain, onePlain⟩ := saysIt
      exact ⟨granted, isGranted, keeps_of_covers isCovered namesAll grantedPlain onePlain⟩
  · obtain ⟨granted, isGranted, isCovered⟩ := covered_of_noProblem passes one isOne
    have isSome : granted ∈ held.filter fun granted => covers granted one :=
      mem_filter.mpr ⟨isGranted, isCovered⟩
    cases found : held.filter fun granted => covers granted one with
    | nil =>
      rw [found] at isSome
      cases isSome
    | cons first rest =>
      have isFirst : first ∈ held := (mem_filter.mp (found ▸ mem_cons_self)).1
      exact ⟨first, isFirst, Keeps.refl first⟩

/-- No token of such a chain is wider than its grant. -/
theorem narrowed_keeps (grant : List Detail) {token : List Detail} (chain : Narrowed grant token) :
    ∀ detail ∈ token, ∃ granted ∈ grant, Keeps granted detail := by
  induction chain with
  | granted =>
    intro detail isDetail
    exact ⟨detail, isDetail, Keeps.refl detail⟩
  | narrowed before passes saysAll ih =>
    intro detail isDetail
    obtain ⟨between, isBetween, keeps⟩ := narrow_keeps passes saysAll detail isDetail
    obtain ⟨granted, isGranted, keeps'⟩ := ih between isBetween
    exact ⟨granted, isGranted, keeps'.trans keeps⟩

/-- A payment from one account, to read and to write. -/
def payment : Detail where
  members :=
    [("type", .string "payment"), ("identifier", .string "account 1"),
      ("actions", .array [.string "read", .string "write"])]
  type := "payment"
  isType := rfl
  typeSome := by decide
  areTexts := by
    intro name isCommon value isHeld
    simp only [commonArrays, mem_cons, not_mem_nil, or_false]
      at isCommon
    rcases isCommon with rfl | rfl | rfl | rfl
    · cases isHeld
    · cases isHeld
      exact ⟨["read", "write"], rfl, by decide, by decide⟩
    · cases isHeld
    · cases isHeld

/-- The same payment, to read. -/
def readPayment : Detail where
  members :=
    [("type", .string "payment"), ("identifier", .string "account 1"),
      ("actions", .array [.string "read"])]
  type := "payment"
  isType := rfl
  typeSome := by decide
  areTexts := by
    intro name isCommon value isHeld
    simp only [commonArrays, mem_cons, not_mem_nil, or_false]
      at isCommon
    rcases isCommon with rfl | rfl | rfl | rfl
    · cases isHeld
    · cases isHeld
      exact ⟨["read"], rfl, by decide, by decide⟩
    · cases isHeld
    · cases isHeld

/-- A payment of which nothing is said. -/
def barePayment : Detail where
  members := [("type", .string "payment")]
  type := "payment"
  isType := rfl
  typeSome := by decide
  areTexts := by
    intro name isCommon value isHeld
    simp only [commonArrays, mem_cons, not_mem_nil, or_false]
      at isCommon
    rcases isCommon with rfl | rfl | rfl | rfl <;> cases isHeld

theorem narrowed_readPayment : ∃ granted ∈ [payment], Keeps granted readPayment := by
  have passes : coveredProblem [readPayment] [payment] = "" := by decide +kernel
  have saysAll : SaysAll [payment] [readPayment] := by
    intro one isOne
    rw [mem_singleton] at isOne
    subst isOne
    exact
      .inr ⟨payment, mem_singleton.mpr rfl, by decide +kernel,
        by decide, by decide, by decide⟩
  exact narrowed_keeps [payment] (.narrowed .granted passes saysAll) readPayment mem_cons_self

/-- A request that names no member has the token say nothing of them. -/
theorem narrow_widens :
    ¬∀ grant request : List Detail,
      coveredProblem request grant = "" →
        ∀ detail ∈ narrow request grant, ∃ granted ∈ grant, Keeps granted detail := by
  intro always
  obtain ⟨granted, isGranted, _, keeps⟩ :=
    always [payment] [barePayment] (by decide +kernel) barePayment mem_cons_self
  rw [mem_singleton] at isGranted
  subst isGranted
  obtain ⟨kept, isKept, _⟩ := keeps "identifier" (.string "account 1") rfl
  cases isKept

end IyaSts.AuthorizationDetails
