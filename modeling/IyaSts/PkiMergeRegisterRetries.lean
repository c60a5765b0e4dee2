import IyaSts.PkiMergeRegisterKeeps

namespace IyaSts.PkiMerge

/-!
# Merging the issued register again

A writer that merges its copy into the result of its own merge changes neither
the serials of the register nor which of them are published, where the copies of
one record agree.
-/

open List

/--
The copies of one record agree on whether it has expired, on its slot and on when
it was issued.
-/
def CopiesAgree (dates : Dates) (now : Int) (copies : List Issued) : Prop :=
  ∀ one ∈ copies,
    ∀ other ∈ copies,
      one.HasSerial →
        other.HasSerial →
          one.key = other.key →
            hasCome dates now one.notAfter = hasCome dates now other.notAfter ∧
              one.identifier = other.identifier ∧ one.issuedAt = other.issuedAt

/-- The copies of one record agree on whether it has expired. -/
def ExpireTogether (dates : Dates) (now : Int) (copies : List Issued) : Prop :=
  ∀ one ∈ copies,
    ∀ other ∈ copies,
      one.HasSerial →
        other.HasSerial →
          one.key = other.key → hasCome dates now one.notAfter = hasCome dates now other.notAfter

theorem CopiesAgree.expireTogether {dates : Dates} {now : Int} {copies : List Issued}
    (agree : CopiesAgree dates now copies) :
    ExpireTogether dates now copies :=
  fun one isOne other isOther hasSerial hasSerial' sameKey =>
    (agree one isOne other isOther hasSerial hasSerial' sameKey).1

section

variable {dates : Dates} {now : Int}

/-! ## What is held already -/

/-- Records under keys of their own are added as they are. -/
theorem addAll_distinct {out records : List Issued}
    (distinct : (keysOfRegister (out ++ records)).Nodup)
    (current : ∀ one ∈ records, Current dates now one) :
    addAll dates now out records = out ++ records := by
  induction records generalizing out with
  | nil => rw [append_nil]; rfl
  | cons one rest ih =>
    have isCurrent := current one mem_cons_self
    have notHeld : one.key ∉ keysOfRegister out := by
      rw [keysOfRegister, map_append, map_cons] at distinct
      intro isHeld
      exact (nodup_append.mp distinct).2.2 one.key isHeld one.key mem_cons_self rfl
    have added : addIssued dates now out one = out ++ [one] := by
      have turn := @turn_addIssued dates now out one
      generalize addIssued dates now out one = next at turn ⊢
      cases turn with
      | skipped noSerial => exact absurd isCurrent.hasSerial noSerial
      | expired _ hasExpired =>
        rw [isCurrent.unexpired] at hasExpired
        cases hasExpired
      | held isHeld sameKey => exact absurd (sameKey ▸ mem_map_of_mem isHeld) notHeld
      | replaced isOut sameKey =>
        refine absurd (sameKey ▸ mem_map_of_mem ?_) notHeld
        rw [isOut]
        exact mem_append_right _ mem_cons_self
      | added => rfl
    rw [addAll, foldl_cons, added, ← addAll]
    rw [← singleton_append, ← append_assoc] at distinct
    rw [ih distinct fun other isOther =>
      current other (mem_cons_of_mem _ isOther), append_assoc, singleton_append]

/-- Records whose keys are held leave the keys. -/
theorem keys_addAll_of_held {out records : List Issued}
    (held : ∀ one ∈ records, Current dates now one → one.key ∈ keysOfRegister out) :
    keysOfRegister (addAll dates now out records) = keysOfRegister out := by
  induction records generalizing out with
  | nil => rfl
  | cons one rest ih =>
    have same : keysOfRegister (addIssued dates now out one) = keysOfRegister out := by
      rcases (@turn_addIssued dates now out one).keys with
        same | ⟨current, notHeld, _⟩
      · exact same
      · exact absurd (held one mem_cons_self current) notHeld
    rw [addAll, foldl_cons, ← addAll, ih, same]
    intro other isOther current
    rw [same]
    exact held other (mem_cons_of_mem _ isOther) current

/-! ## The union of the copies and of what was merged -/

theorem nodup_unionIssued (records : List Issued) :
    (keysOfRegister (unionIssued dates now records)).Nodup :=
  @nodup_addAll dates now [] nodup_nil records

/-- A record of the union is a copy, and one that has not expired. -/
theorem current_of_mem_unionIssued {records : List Issued}
    (expire : ExpireTogether dates now records) {record : Issued}
    (isHeld : record ∈ unionIssued dates now records) :
    record ∈ records ∧ Current dates now record := by
  obtain ⟨isCopy, hasSerial⟩ := (mem_addAll isHeld).resolve_left not_mem_nil
  have isKey : record.key ∈ keysOfRegister (addAll dates now [] records) :=
    mem_map_of_mem isHeld
  obtain ⟨one, isOne, current, sameKey⟩ := (current_of_mem_keys isKey).resolve_left not_mem_nil
  have sameExpiry := expire one isOne record isCopy current.hasSerial hasSerial sameKey
  exact ⟨isCopy, hasSerial, sameExpiry ▸ current.unexpired⟩

section

variable {κ : Type} [LinearOrder κ] {collate : String → κ}

variable {index : Nat} {record : Issued}

/-- Trimming changes nothing of a record but what it publishes. -/
theorem mem_trimPublished {register : List Issued}
    (stands : (trimPublished collate register)[index]? = some record) :
    ∃ held,
      register[index]? = some held ∧
        record.serialHex = held.serialHex ∧
          record.useCase = held.useCase ∧
            record.notAfter = held.notAfter ∧
              record.identifier = held.identifier ∧
                record.issuedAt = held.issuedAt ∧
                  (record.HasCertificate → held.HasCertificate) := by
  rw [getElem?_trimPublished, Option.map_eq_some_iff] at stands
  obtain ⟨held, isHeld, rfl⟩ := stands
  refine ⟨held, isHeld, ?_⟩
  split
  · exact ⟨rfl, rfl, rfl, rfl, rfl, fun published => absurd rfl published⟩
  · exact ⟨rfl, rfl, rfl, rfl, rfl, id⟩

variable {records again : List Issued}

/-- The register that is merged a second time. -/
abbrev mergedRegister (collate : String → κ) (dates : Dates) (now : Int)
    (records : List Issued) : List Issued :=
  trimPublished collate (unionIssued dates now records)

/-- The union of a second merge. -/
abbrev secondUnion (collate : String → κ) (dates : Dates) (now : Int)
    (records again : List Issued) : List Issued :=
  unionIssued dates now (mergedRegister collate dates now records ++ again)

theorem current_of_mem_mergedRegister (expire : ExpireTogether dates now records)
    (isHeld : record ∈ mergedRegister collate dates now records) :
    Current dates now record := by
  obtain ⟨index, stands⟩ := mem_iff_getElem?.mp isHeld
  obtain ⟨held, isUnion, sameSerial, _, sameExpiry, _⟩ := mem_trimPublished stands
  obtain ⟨_, current⟩ := current_of_mem_unionIssued expire (mem_of_getElem? isUnion)
  constructor
  · rw [Issued.HasSerial, sameSerial]
    exact current.hasSerial
  · rw [sameExpiry]
    exact current.unexpired

/-- The second union starts from the merged register. -/
theorem secondUnion_eq (expire : ExpireTogether dates now records) :
    secondUnion collate dates now records again =
      addAll dates now (mergedRegister collate dates now records) again := by
  have distinct : (keysOfRegister (mergedRegister collate dates now records)).Nodup := by
    rw [keys_trimPublished]
    exact nodup_unionIssued records
  have held :=
    @addAll_distinct dates now [] (mergedRegister collate dates now records) distinct
      fun one isOne => current_of_mem_mergedRegister expire isOne
  rw [secondUnion, unionIssued, foldl_append, ← addAll, ← addAll, held]
  rfl

theorem keys_secondUnion (expire : ExpireTogether dates now records) (isAgain : again ⊆ records) :
    keysOfRegister (secondUnion collate dates now records again) =
      keysOfRegister (unionIssued dates now records) := by
  rw [secondUnion_eq expire, keys_addAll_of_held, keys_trimPublished]
  intro one isOne current
  rw [keys_trimPublished]
  exact mem_keys_addAll [] (isAgain isOne) current

/-- What stands in the second union under a key agrees with the first. -/
structure Corresponds (collate : String → κ) (dates : Dates) (now : Int)
    (records again : List Issued) (index : Nat) (first second : Issued) : Prop where
  slot : second.identifier = first.identifier
  age : second.issuedAt = first.issuedAt
  published : second.HasCertificate → first.HasCertificate
  keeps :
    ∀ kept,
      (mergedRegister collate dates now records)[index]? = some kept →
        kept.HasCertificate → second.HasCertificate

theorem corresponds (agree : CopiesAgree dates now records) (isAgain : again ⊆ records)
    {first second : Issued} (isFirst : (unionIssued dates now records)[index]? = some first)
    (isSecond : (secondUnion collate dates now records again)[index]? = some second) :
    Corresponds collate dates now records again index first second := by
  have distinct := @nodup_unionIssued dates now records
  have distinct' := @nodup_unionIssued dates now (mergedRegister collate dates now records ++ again)
  have sameKey : second.key = first.key := by
    have sameKeys := congrArg (·[index]?) (@keys_secondUnion _ _ _ _ collate _ _ agree.expireTogether isAgain)
    simpa [keysOfRegister, isFirst, isSecond] using sameKeys
  obtain ⟨isCopy, current⟩ :=
    current_of_mem_unionIssued agree.expireTogether (mem_of_getElem? isFirst)
  have keeps (kept : Issued)
      (stands : (mergedRegister collate dates now records)[index]? = some kept)
      (hasCertificate : kept.HasCertificate) :
      second.HasCertificate := by
    obtain ⟨held, isUnion, sameSerial, sameUseCase, _⟩ := mem_trimPublished stands
    rw [isFirst, Option.some_inj] at isUnion
    have keptKey : kept.key = first.key := by
      rw [Issued.key, Issued.key, sameSerial, sameUseCase, isUnion]
    have publishing : Publishing (mergedRegister collate dates now records) first.key :=
      ⟨kept, mem_of_getElem? stands, keptKey, hasCertificate⟩
    have publishing := @publishing_addAll dates now _ _ publishing again
    rw [← secondUnion_eq agree.expireTogether] at publishing
    obtain ⟨other, isOther, otherKey, published⟩ := publishing
    obtain ⟨index', standsOther⟩ := mem_iff_getElem?.mp isOther
    have sameIndex := index_eq_of_key distinct' isSecond standsOther (sameKey.trans otherKey.symm)
    subst sameIndex
    rw [isSecond, Option.some_inj] at standsOther
    exact standsOther ▸ published
  have isHeld := mem_of_getElem? isSecond
  rw [secondUnion_eq agree.expireTogether] at isHeld
  rcases mem_addAll isHeld with isMerged | ⟨isOnceMore, hasSerial⟩
  · obtain ⟨index', stands⟩ := mem_iff_getElem?.mp isMerged
    obtain ⟨held, isUnion, sameSerial, sameUseCase, _, sameSlot, sameAge, published⟩ :=
      mem_trimPublished stands
    have heldKey : held.key = first.key := by
      rw [← sameKey, Issued.key, Issued.key, sameSerial, sameUseCase]
    have sameIndex := index_eq_of_key distinct isUnion isFirst heldKey
    subst sameIndex
    rw [isFirst, Option.some_inj] at isUnion
    subst isUnion
    exact ⟨sameSlot, sameAge, published, keeps⟩
  · obtain ⟨sameExpiry, sameSlot, sameAge⟩ :=
      agree second (isAgain isOnceMore) first isCopy hasSerial current.hasSerial sameKey
    refine ⟨sameSlot, sameAge, ?_, keeps⟩
    intro hasCertificate
    obtain ⟨other, isOther, otherKey, published⟩ :=
      @publishes_addAll dates now [] records second (isAgain isOnceMore)
        ⟨hasSerial, sameExpiry.trans current.unexpired⟩ hasCertificate
    obtain ⟨index', standsOther⟩ := mem_iff_getElem?.mp isOther
    have sameIndex :=
      index_eq_of_key distinct isFirst standsOther (sameKey.symm.trans otherKey.symm)
    subst sameIndex
    have same := isFirst.symm.trans standsOther
    exact Option.some_inj.mp same ▸ published

/-! ## What goes on being published -/

/-- What the order of a register turns on: slot, issue time and place. -/
def rankOf (entry : Issued × Nat) : String × String × Nat :=
  (entry.1.identifier, entry.1.issuedAt, entry.2)

/-- The record at a place publishes a certificate. -/
def publishesAt (register : List Issued) (rank : String × String × Nat) : Bool :=
  (register[rank.2.2]?).any fun one => decide one.HasCertificate

def newer (collate : String → κ) (first second : String × String × Nat) : Bool :=
  decide (collate second.2.1 ≤ collate first.2.1)

variable (register : List Issued)

theorem map_publishedOrder :
    (publishedOrder collate register).map rankOf =
    ((register.zipIdx.map rankOf).filter (publishesAt register)).mergeSort (newer collate) := by
  rw [publishedOrder, map_mergeSort (s := newer collate), filter_map]
  · congr 2
    apply filter_congr
    intro entry isEntry
    have stands := mem_zipIdx_iff_getElem?.mp isEntry
    simp [publishesAt, rankOf, stands]
  · intro first _ second _
    rfl

theorem map_stillPublished :
    (stillPublished collate register).map rankOf =
      GroupLimit.leading (fun rank : String × String × Nat => rank.1) publishedPerSlot []
        (((register.zipIdx.map rankOf).filter (publishesAt register)).mergeSort
          (newer collate)) := by
  rw [← map_publishedOrder, GroupLimit.leading_map]
  rfl

/-- The same places go on being published. -/
theorem stillPublished_secondUnion (agree : CopiesAgree dates now records)
    (isAgain : again ⊆ records) :
    (stillPublished collate (secondUnion collate dates now records again)).map rankOf =
      (stillPublished collate (unionIssued dates now records)).map rankOf := by
  have sameLength :
      (secondUnion collate dates now records again).length =
        (unionIssued dates now records).length := by
    have sameKeys := congrArg List.length (@keys_secondUnion _ _ _ _ collate _ _ agree.expireTogether isAgain)
    simpa [keysOfRegister] using sameKeys
  have pairs (index : Nat) (inside : index < (unionIssued dates now records).length) :
      ∃ first second,
        (unionIssued dates now records)[index]? = some first ∧
          (secondUnion collate dates now records again)[index]? = some second ∧
            Corresponds collate dates now records again index first second := by
    have isFirst := List.getElem?_eq_getElem inside
    have isSecond := List.getElem?_eq_getElem (sameLength.symm ▸ inside)
    exact ⟨_, _, isFirst, isSecond, corresponds agree isAgain isFirst isSecond⟩
  have sameRanks :
      (secondUnion collate dates now records again).zipIdx.map rankOf =
        (unionIssued dates now records).zipIdx.map rankOf := by
    apply ext_getElem?
    intro index
    rw [List.getElem?_map, List.getElem?_map, List.getElem?_zipIdx, List.getElem?_zipIdx]
    by_cases inside : index < (unionIssued dates now records).length
    · obtain ⟨first, second, isFirst, isSecond, corresponds⟩ := pairs index inside
      rw [isFirst, isSecond, Option.map_some, Option.map_some, Option.map_some, Option.map_some,
        rankOf, rankOf, corresponds.slot, corresponds.age]
    · rw [List.getElem?_eq_none (by omega), List.getElem?_eq_none (by omega)]
  have filtered :
      ((secondUnion collate dates now records again).zipIdx.map rankOf).filter
          (publishesAt (secondUnion collate dates now records again)) =
        (((unionIssued dates now records).zipIdx.map rankOf).filter
            (publishesAt (unionIssued dates now records))).filter
          (publishesAt (secondUnion collate dates now records again)) := by
    rw [sameRanks, filter_filter]
    apply filter_congr
    intro rank isRank
    obtain ⟨entry, isEntry, rfl⟩ := mem_map.mp isRank
    have stands := mem_zipIdx_iff_getElem?.mp isEntry
    obtain ⟨first, second, isFirst, isSecond, corresponds⟩ :=
      pairs entry.2 (List.getElem?_eq_some_iff.mp stands).1
    have published := corresponds.published
    simp only [publishesAt, rankOf, isFirst, isSecond, Option.any_some]
    by_cases hasCertificate : second.HasCertificate
    · simp [hasCertificate, published hasCertificate]
    · simp [hasCertificate]
  rw [map_stillPublished, map_stillPublished, filtered]
  refine
    GroupLimit.leading_filter_mergeSort _ publishedPerSlot
      (newest_trans fun rank : String × String × Nat => collate rank.2.1)
      (newest_total fun rank : String × String × Nat => collate rank.2.1) ?_
  intro rank isLeading
  have isLeading : rank ∈ (stillPublished collate (unionIssued dates now records)).map rankOf := by
    rw [map_stillPublished]
    exact isLeading
  obtain ⟨entry, isPublished, rfl⟩ := mem_map.mp isLeading
  obtain ⟨stands, isKept⟩ := stands_of_stillPublished isPublished
  obtain ⟨first, second, isFirst, isSecond, corresponds⟩ :=
    pairs entry.2 (List.getElem?_eq_some_iff.mp stands).1
  have hasCertificate := (hasCertificate_trimPublished_iff isKept).mpr isPublished
  simpa [publishesAt, rankOf, isSecond] using corresponds.keeps entry.1 isKept hasCertificate

/-- A trimmed register publishes what its places that go on publishing hold. -/
theorem publishing_trimPublished_iff (key : String × String) :
    Publishing (trimPublished collate register) key ↔
      ∃ index ∈ (stillPublished collate register).map Prod.snd,
        (keysOfRegister register)[index]? = some key := by
  constructor
  · rintro ⟨one, isOne, rfl, hasCertificate⟩
    obtain ⟨index, stands⟩ := mem_iff_getElem?.mp isOne
    have isPublished := (hasCertificate_trimPublished_iff stands).mp hasCertificate
    refine ⟨index, mem_map_of_mem isPublished, ?_⟩
    rw [keysOfRegister, List.getElem?_map, (stands_of_stillPublished isPublished).1,
      Option.map_some]
  · rintro ⟨index, isIndex, isKey⟩
    obtain ⟨entry, isPublished, rfl⟩ := mem_map.mp isIndex
    obtain ⟨stands, isKept⟩ := stands_of_stillPublished isPublished
    rw [keysOfRegister, List.getElem?_map, stands, Option.map_some, Option.some_inj] at isKey
    exact
      ⟨entry.1, mem_of_getElem? isKept, isKey,
        (hasCertificate_trimPublished_iff isKept).mpr isPublished⟩

/-- Merging again what a merge was made of changes no serial. -/
theorem serials_again (expire : ExpireTogether dates now records) (isAgain : again ⊆ records) :
    keysOfRegister
        (mergedRegister collate dates now (mergedRegister collate dates now records ++ again)) =
      keysOfRegister (mergedRegister collate dates now records) := by
  rw [keys_trimPublished, keys_trimPublished]
  exact keys_secondUnion expire isAgain

/-- Nor, where the copies agree, which of them are published. -/
theorem published_again (agree : CopiesAgree dates now records)
    (isAgain : again ⊆ records) (key : String × String) :
    Publishing
        (mergedRegister collate dates now (mergedRegister collate dates now records ++ again))
        key ↔
      Publishing (mergedRegister collate dates now records) key := by
  have sameKeys := @keys_secondUnion _ _ _ _ collate _ _ agree.expireTogether isAgain
  have sameIndices :
      (stillPublished collate (secondUnion collate dates now records again)).map Prod.snd =
        (stillPublished collate (unionIssued dates now records)).map Prod.snd := by
    have sameRanks :=
      congrArg (List.map fun rank : String × String × Nat => rank.2.2)
        (@stillPublished_secondUnion _ _ _ _ collate _ _ agree isAgain)
    rw [map_map, map_map] at sameRanks
    exact sameRanks
  rw [publishing_trimPublished_iff, publishing_trimPublished_iff, sameIndices, sameKeys]

end

end

end IyaSts.PkiMerge
