import IyaSts.PkiMergeKeeps
import IyaSts.PkiMergeRegister

namespace IyaSts.PkiMerge

/-!
# What the issued register keeps

Every serial that either writer holds has one record in the merged register, and
so has every certificate that is displaced.
-/

open List

/-- The keys a register holds its records by. -/
def keysOfRegister (register : List Issued) : List (String × String) := register.map Issued.key

/-- The register publishes a certificate under a key. -/
def Publishing (register : List Issued) (key : String × String) : Prop :=
  ∃ one ∈ register, one.key = key ∧ one.HasCertificate

/-- A copy of a record that the register takes in: it has a serial and has not expired. -/
structure Current (dates : Dates) (now : Int) (one : Issued) : Prop where
  hasSerial : one.HasSerial
  unexpired : hasCome dates now one.notAfter = false

section

variable {dates : Dates} {now : Int}

/-! ## One record's turn -/

/-- What the turn of a record leaves of the register. -/
inductive Turn (dates : Dates) (now : Int) (out : List Issued) (one : Issued) :
    List Issued → Prop where
  /-- It has no serial. -/
  | skipped (noSerial : ¬ one.HasSerial) : Turn dates now out one out
  /-- It has expired and is not held. -/
  | expired
      (notHeld : one.key ∉ keysOfRegister out)
      (hasExpired : hasCome dates now one.notAfter = true) :
      Turn dates now out one out
  /-- It is held, with a certificate where it has one. -/
  | held {other : Issued}
      (isHeld : other ∈ out)
      (sameKey : other.key = one.key)
      (published : one.HasCertificate → other.HasCertificate) :
      Turn dates now out one out
  /-- It is held without the certificate that it has. -/
  | replaced {front back : List Issued} {other : Issued}
      (isOut : out = front ++ other :: back)
      (sameKey : other.key = one.key)
      (hasSerial : one.HasSerial)
      (hasCertificate : one.HasCertificate) :
      Turn dates now out one (front ++ one :: back)
  | added
      (current : Current dates now one)
      (notHeld : one.key ∉ keysOfRegister out) :
      Turn dates now out one (out ++ [one])

theorem turn_addIssued (out : List Issued) (one : Issued) :
    Turn dates now out one (addIssued dates now out one) := by
  unfold addIssued
  by_cases hasSerial : one.HasSerial
  · rw [if_neg (not_not.mpr hasSerial)]
    split
    · rename_i index found
      obtain ⟨isIndex, sameKey, _⟩ := List.findIdx?_eq_some_iff_getElem.mp found
      have sameKey : out[index].key = one.key := by simpa using sameKey
      split
      · rename_i takes
        rw [set_eq_take_append_cons_drop, if_pos isIndex]
        refine .replaced ?_ sameKey hasSerial takes.1
        rw [← drop_eq_getElem_cons isIndex, take_append_drop]
      · rename_i leaves
        refine .held (getElem_mem isIndex) sameKey ?_
        intro hasCertificate
        by_contra lacks
        refine leaves ⟨hasCertificate, ?_⟩
        simpa [List.getElem?_eq_getElem isIndex] using lacks
    · rename_i notFound
      have notHeld : one.key ∉ keysOfRegister out := by
        intro isKey
        obtain ⟨other, isHeld, sameKey⟩ := mem_map.mp isKey
        have := List.findIdx?_eq_none_iff.mp notFound other isHeld
        simp [sameKey] at this
      by_cases hasExpired : hasCome dates now one.notAfter = true
      · rw [if_pos hasExpired]
        exact .expired notHeld hasExpired
      · rw [if_neg hasExpired]
        exact .added ⟨hasSerial, Bool.eq_false_iff.mpr hasExpired⟩ notHeld
  · rw [if_pos hasSerial]
    exact .skipped hasSerial

variable {out next records : List Issued} {one record : Issued} {key : String × String}

/-- A turn keeps the keys where they are, and adds one that is not held at the end. -/
theorem Turn.keys (turn : Turn dates now out one next) :
    keysOfRegister next = keysOfRegister out ∨
      (Current dates now one ∧
        one.key ∉ keysOfRegister out ∧ keysOfRegister next = keysOfRegister out ++ [one.key]) := by
  cases turn with
  | skipped => exact .inl rfl
  | expired => exact .inl rfl
  | held => exact .inl rfl
  | replaced isOut sameKey =>
    refine .inl ?_
    rw [isOut, keysOfRegister, keysOfRegister, map_append, map_append,
      map_cons, map_cons, sameKey]
  | added current notHeld =>
    exact .inr ⟨current, notHeld, by rw [keysOfRegister, map_append]; rfl⟩

theorem Turn.keys_subset (turn : Turn dates now out one next) :
    keysOfRegister out ⊆ keysOfRegister next := by
  rcases turn.keys with same | ⟨_, _, longer⟩
  · rw [same]
    exact List.Subset.refl _
  · rw [longer]
    exact subset_append_left _ _

/-- After its turn the key of a current record is held. -/
theorem Turn.holds (turn : Turn dates now out one next) (current : Current dates now one) :
    one.key ∈ keysOfRegister next := by
  cases turn with
  | skipped noSerial => exact absurd current.hasSerial noSerial
  | expired _ hasExpired =>
    rw [current.unexpired] at hasExpired
    cases hasExpired
  | held isHeld sameKey =>
    rw [← sameKey]
    exact mem_map_of_mem isHeld
  | replaced => exact mem_map_of_mem (by simp)
  | added => exact mem_map_of_mem (by simp)

/-- Nothing is held but what was held and the record itself. -/
theorem Turn.mem (turn : Turn dates now out one next) (isHeld : record ∈ next) :
    record ∈ out ∨ (record = one ∧ one.HasSerial) := by
  cases turn with
  | skipped => exact .inl isHeld
  | expired => exact .inl isHeld
  | held => exact .inl isHeld
  | replaced isOut sameKey hasSerial =>
    rw [mem_append, mem_cons] at isHeld
    rcases isHeld with isFront | isOne | isBack
    · exact .inl (isOut ▸ mem_append_left _ isFront)
    · exact .inr ⟨isOne, hasSerial⟩
    · exact .inl (isOut ▸ mem_append_right _ (mem_cons_of_mem _ isBack))
  | added current =>
    rw [mem_append, mem_singleton] at isHeld
    rcases isHeld with isOut | isOne
    · exact .inl isOut
    · exact .inr ⟨isOne, current.hasSerial⟩

/-- A certificate that is published stays published. -/
theorem Turn.publishing (turn : Turn dates now out one next) (publishing : Publishing out key) :
    Publishing next key := by
  cases turn with
  | skipped => exact publishing
  | expired => exact publishing
  | held => exact publishing
  | replaced isOut sameKey hasSerial hasCertificate =>
    obtain ⟨record, isRecord, rfl, published⟩ := publishing
    rw [isOut, mem_append, mem_cons] at isRecord
    rcases isRecord with isFront | rfl | isBack
    · exact ⟨record, mem_append_left _ isFront, rfl, published⟩
    · exact ⟨one, by simp, sameKey.symm, hasCertificate⟩
    · exact ⟨record, mem_append_right _ (mem_cons_of_mem _ isBack), rfl, published⟩
  | added =>
    obtain ⟨record, isRecord, isKey, published⟩ := publishing
    exact ⟨record, mem_append_left _ isRecord, isKey, published⟩

/-- After the turn of a current record its certificate is published, or another one. -/
theorem Turn.publishes (turn : Turn dates now out one next)
    (current : Current dates now one) (hasCertificate : one.HasCertificate) :
    Publishing next one.key := by
  cases turn with
  | skipped noSerial => exact absurd current.hasSerial noSerial
  | expired _ hasExpired =>
    rw [current.unexpired] at hasExpired
    cases hasExpired
  | held isHeld sameKey published => exact ⟨_, isHeld, sameKey, published hasCertificate⟩
  | replaced => exact ⟨one, by simp, rfl, hasCertificate⟩
  | added => exact ⟨one, by simp, rfl, hasCertificate⟩

/-! ## The union -/

/-- The turns of some records, one after another. -/
def addAll (dates : Dates) (now : Int) (out records : List Issued) : List Issued :=
  records.foldl (addIssued dates now) out

theorem nodup_addAll {out : List Issued} (distinct : (keysOfRegister out).Nodup)
    (records : List Issued) :
    (keysOfRegister (addAll dates now out records)).Nodup := by
  induction records generalizing out with
  | nil => exact distinct
  | cons one rest ih =>
    refine ih ?_
    rcases (turn_addIssued out one).keys with same | ⟨_, notHeld, longer⟩
    · rwa [same]
    · rw [longer]
      exact nodup_append.mpr ⟨distinct, nodup_singleton _, by
          intro held isHeld other isOther same
          rw [mem_singleton] at isOther
          exact notHeld (isOther ▸ same ▸ isHeld)⟩

theorem keys_addAll_subset (out records : List Issued) :
    keysOfRegister out ⊆ keysOfRegister (addAll dates now out records) := by
  induction records generalizing out with
  | nil => exact List.Subset.refl _
  | cons one rest ih => exact List.Subset.trans (turn_addIssued out one).keys_subset (ih _)

/-- Every current record's key is held. -/
theorem mem_keys_addAll (out : List Issued) (isRecord : one ∈ records)
    (current : Current dates now one) :
    one.key ∈ keysOfRegister (addAll dates now out records) := by
  induction records generalizing out with
  | nil => cases isRecord
  | cons first rest ih =>
    rcases mem_cons.mp isRecord with rfl | isLater
    · exact keys_addAll_subset _ rest ((turn_addIssued out one).holds current)
    · exact ih _ isLater

/-- Every key that is held is a current record's. -/
theorem current_of_mem_keys (isKey : key ∈ keysOfRegister (addAll dates now out records)) :
    key ∈ keysOfRegister out ∨ ∃ one ∈ records, Current dates now one ∧ one.key = key := by
  induction records generalizing out with
  | nil => exact .inl isKey
  | cons first rest ih =>
    rcases ih isKey with before | ⟨one, isLater, current, isKey⟩
    · rcases (turn_addIssued out first).keys with same | ⟨current, _, longer⟩
      · exact .inl (same ▸ before)
      · rw [longer, mem_append, mem_singleton] at before
        rcases before with before | rfl
        · exact .inl before
        · exact .inr ⟨first, mem_cons_self, current, rfl⟩
    · exact .inr ⟨one, mem_cons_of_mem _ isLater, current, isKey⟩

theorem mem_addAll (isHeld : record ∈ addAll dates now out records) :
    record ∈ out ∨ (record ∈ records ∧ record.HasSerial) := by
  induction records generalizing out with
  | nil => exact .inl isHeld
  | cons first rest ih =>
    rcases ih isHeld with before | ⟨isLater, hasSerial⟩
    · rcases (turn_addIssued out first).mem before with before | ⟨rfl, hasSerial⟩
      · exact .inl before
      · exact .inr ⟨mem_cons_self, hasSerial⟩
    · exact .inr ⟨mem_cons_of_mem _ isLater, hasSerial⟩

theorem publishing_addAll {out : List Issued} {key : String × String}
    (publishing : Publishing out key) (records : List Issued) :
    Publishing (addAll dates now out records) key := by
  induction records generalizing out with
  | nil => exact publishing
  | cons one rest ih => exact ih ((turn_addIssued out one).publishing publishing)

/-- Every current record's certificate is published, or another one for it. -/
theorem publishes_addAll (out : List Issued) {records : List Issued} {one : Issued}
    (isRecord : one ∈ records)
    (current : Current dates now one) (hasCertificate : one.HasCertificate) :
    Publishing (addAll dates now out records) one.key := by
  induction records generalizing out with
  | nil => cases isRecord
  | cons first rest ih =>
    rcases mem_cons.mp isRecord with rfl | isLater
    · exact publishing_addAll ((turn_addIssued out one).publishes current hasCertificate) rest
    · exact ih _ isLater

end

/-! ## What is trimmed -/

section

variable {κ : Type} [LinearOrder κ] {collate : String → κ}

variable {α : Type} {register : List Issued} {entry : Issued × Nat}

variable (age : α → κ)

theorem newest_trans (first second third : α) :
    decide (age second ≤ age first) = true →
      decide (age third ≤ age second) = true → decide (age third ≤ age first) = true := by
  simp only [decide_eq_true_eq]
  exact fun newer newer' => newer'.trans newer

theorem newest_total (first second : α) :
    (decide (age second ≤ age first) || decide (age first ≤ age second)) = true := by
  simp only [Bool.or_eq_true, decide_eq_true_eq]
  exact le_total _ _

/-- The records that go on publishing, with where they are. -/
def stillPublished (collate : String → κ) (register : List Issued) : List (Issued × Nat) :=
  GroupLimit.leading (fun entry : Issued × Nat => entry.1.identifier) publishedPerSlot []
    (publishedOrder collate register)

theorem mem_publishedOrder {entry : Issued × Nat} :
    entry ∈ publishedOrder collate register ↔
      register[entry.2]? = some entry.1 ∧ entry.1.HasCertificate := by
  rw [publishedOrder, mem_mergeSort, mem_filter, mem_zipIdx_iff_getElem?,
    decide_eq_true_eq]

theorem nodup_publishedOrder (register : List Issued) :
    (publishedOrder collate register).Nodup := by
  refine (mergeSort_perm _ _).nodup_iff.mpr (List.Nodup.filter _ ?_)
  refine List.Nodup.of_map Prod.snd ?_
  rw [zipIdx_map_snd]
  exact nodup_range'

/-- A record is trimmed or goes on publishing, where it publishes. -/
theorem mem_strip_iff (isOrdered : entry ∈ publishedOrder collate register) :
    entry.2 ∈ strip collate register ↔ entry ∉ stillPublished collate register := by
  have either :=
    (GroupLimit.mem_leading_or_surplus (fun entry : Issued × Nat => entry.1.identifier)
      publishedPerSlot [] (publishedOrder collate register) entry).mpr isOrdered
  constructor
  · intro isStripped
    obtain ⟨other, isSurplus, sameIndex⟩ := mem_map.mp isStripped
    have otherOrdered := (GroupLimit.surplus_sublist _ publishedPerSlot [] _).subset isSurplus
    have same : other = entry := by
      refine Prod.ext (Option.some_inj.mp ?_) sameIndex
      rw [← (mem_publishedOrder.mp otherOrdered).1, sameIndex, (mem_publishedOrder.mp isOrdered).1]
    subst same
    exact
      GroupLimit.not_leading_of_surplus _ publishedPerSlot (nodup_publishedOrder register) isSurplus
  · intro notPublished
    rcases either with isPublished | isSurplus
    · exact absurd isPublished notPublished
    · exact mem_map_of_mem isSurplus

theorem getElem?_trimPublished (register : List Issued) (index : Nat) :
    (trimPublished collate register)[index]? =
      register[index]?.map fun one =>
        if index ∈ strip collate register then one.trimmed else one := by
  rw [trimPublished, List.getElem?_map, List.getElem?_zipIdx, Option.map_map, Nat.zero_add]
  rfl

/-- Trimming leaves every record under its key. -/
theorem keys_trimPublished (register : List Issued) :
    keysOfRegister (trimPublished collate register) = keysOfRegister register := by
  apply ext_getElem?
  intro index
  rw [keysOfRegister, keysOfRegister, List.getElem?_map, getElem?_trimPublished,
    List.getElem?_map, Option.map_map]
  congr 1
  funext one
  dsimp only [Function.comp_apply]
  split <;> rfl

/-- What goes on being published stands where it was, as it was. -/
theorem stands_of_stillPublished (isPublished : entry ∈ stillPublished collate register) :
    register[entry.2]? = some entry.1 ∧
      (trimPublished collate register)[entry.2]? = some entry.1 := by
  have isOrdered := (GroupLimit.leading_sublist _ publishedPerSlot [] _).subset isPublished
  have isHeld := (mem_publishedOrder.mp isOrdered).1
  have notStripped := mt (mem_strip_iff isOrdered).mp (not_not.mpr isPublished)
  refine ⟨isHeld, ?_⟩
  rw [getElem?_trimPublished, isHeld, Option.map_some, if_neg notStripped]

/-- Past trimming a record publishes where it is one of the newest of its slot. -/
theorem hasCertificate_trimPublished_iff {index : Nat} {one : Issued}
    (stands : (trimPublished collate register)[index]? = some one) :
    one.HasCertificate ↔ (one, index) ∈ stillPublished collate register := by
  rw [getElem?_trimPublished, Option.map_eq_some_iff] at stands
  obtain ⟨record, isRecord, isOne⟩ := stands
  constructor
  · intro hasCertificate
    split at isOne
    · subst isOne
      exact absurd rfl hasCertificate
    · rename_i notStripped
      subst isOne
      have isOrdered : (record, index) ∈ publishedOrder collate register :=
        mem_publishedOrder.mpr ⟨isRecord, hasCertificate⟩
      exact not_not.mp fun notPublished => notStripped ((mem_strip_iff isOrdered).mpr notPublished)
  · intro isPublished
    exact
      (mem_publishedOrder.mp
        ((GroupLimit.leading_sublist _ publishedPerSlot [] _).subset isPublished)).2

/-- Exactly one record stands under a key. -/
def OneRecord (register : List Issued) (key : String × String) : Prop :=
  register.countP (·.key = key) = 1

theorem oneRecord_of_mem_keys {key : String × String} (distinct : (keysOfRegister register).Nodup)
    (isKey : key ∈ keysOfRegister register) :
    OneRecord register key := by
  have counted := count_eq_one_of_mem distinct isKey
  rw [keysOfRegister, List.count, countP_map] at counted
  rw [OneRecord, ← counted]
  apply countP_congr
  intro one _
  simp

/--
A record past the limit of its slot: as many others of the slot publish
certificates and are not older.
-/
def Outnumbered (collate : String → κ) (register : List Issued) (record : Issued) : Prop :=
  ∃ others : List Issued,
    publishedPerSlot ≤ others.length ∧
      (keysOfRegister others).Nodup ∧
        ∀ other ∈ others,
          other ∈ register ∧
            other.key ≠ record.key ∧
              other.HasCertificate ∧
                other.identifier = record.identifier ∧
                  collate record.issuedAt ≤ collate other.issuedAt

/-- Under one key a register has one record. -/
theorem index_eq_of_key (distinct : (keysOfRegister register).Nodup) {index index' : Nat}
    {one other : Issued} (isOne : register[index]? = some one)
    (isOther : register[index']? = some other) (sameKey : one.key = other.key) :
    index = index' := by
  have inside : index < (keysOfRegister register).length := by
    rw [keysOfRegister, length_map]
    exact (List.getElem?_eq_some_iff.mp isOne).1
  refine (List.getElem?_inj inside distinct).mp ?_
  rw [keysOfRegister, List.getElem?_map, List.getElem?_map, isOne, isOther, Option.map_some,
    Option.map_some, sameKey]

/-- Trimming takes a certificate only from a record past the limit. -/
theorem outnumbered_of_trimmed (distinct : (keysOfRegister register).Nodup) {record : Issued}
    (isRecord : record ∈ trimPublished collate register)
    (published : Publishing register record.key) (lacks : ¬ record.HasCertificate) :
    Outnumbered collate (trimPublished collate register) record := by
  obtain ⟨index, stands⟩ := mem_iff_getElem?.mp isRecord
  have trims := stands
  rw [getElem?_trimPublished, Option.map_eq_some_iff] at trims
  obtain ⟨held, isHeld, isTrimmed⟩ := trims
  obtain ⟨sameKey, sameSlot, sameAge⟩ :
      held.key = record.key ∧
        held.identifier = record.identifier ∧ held.issuedAt = record.issuedAt := by
    rw [← isTrimmed]
    split <;> exact ⟨rfl, rfl, rfl⟩
  obtain ⟨other, isOther, otherKey, hasCertificate⟩ := published
  obtain ⟨index', standsOther⟩ := mem_iff_getElem?.mp isOther
  have sameIndex := index_eq_of_key distinct isHeld standsOther (sameKey.trans otherKey.symm)
  subst sameIndex
  rw [isHeld, Option.some_inj] at standsOther
  subst standsOther
  have isOrdered : (held, index) ∈ publishedOrder collate register :=
    mem_publishedOrder.mpr ⟨isHeld, hasCertificate⟩
  have isSurplus :
      (held, index) ∈
        GroupLimit.surplus (fun entry : Issued × Nat => entry.1.identifier) publishedPerSlot []
          (publishedOrder collate register) := by
    refine
      ((GroupLimit.mem_leading_or_surplus _ publishedPerSlot [] _ _).mpr isOrdered).resolve_left ?_
    intro isPublished
    have notStripped := mt (mem_strip_iff isOrdered).mp (not_not.mpr isPublished)
    rw [if_neg notStripped] at isTrimmed
    exact lacks (isTrimmed ▸ hasCertificate)
  obtain ⟨others, isSublist, asMany, each⟩ :=
    GroupLimit.leading_of_surplus_mergeSort _ publishedPerSlot
      (newest_trans fun entry : Issued × Nat => collate entry.1.issuedAt)
      (newest_total fun entry : Issued × Nat => collate entry.1.issuedAt) isSurplus
  have stillHeld (entry : Issued × Nat) (isOther : entry ∈ others) :
      register[entry.2]? = some entry.1 ∧
        (trimPublished collate register)[entry.2]? = some entry.1 ∧
          entry ∈ stillPublished collate register := by
    have isPublished : entry ∈ stillPublished collate register := isSublist.subset isOther
    obtain ⟨isHeld, isKept⟩ := stands_of_stillPublished isPublished
    exact ⟨isHeld, isKept, isPublished⟩
  have distinctOthers : others.Nodup :=
    (nodup_publishedOrder register).sublist
      (isSublist.trans (GroupLimit.leading_sublist _ publishedPerSlot [] _))
  refine ⟨others.map Prod.fst, by rw [length_map, asMany], ?_, ?_⟩
  · rw [keysOfRegister, map_map]
    refine List.Nodup.map_on ?_ distinctOthers
    intro first isFirst second isSecond sameKeys
    have held := (stillHeld first isFirst).1
    have held' := (stillHeld second isSecond).1
    have sameIndex := index_eq_of_key distinct held held' sameKeys
    refine Prod.ext (Option.some_inj.mp ?_) sameIndex
    rw [← held, ← held', sameIndex]
  · intro one isOne
    obtain ⟨entry, isOther, rfl⟩ := mem_map.mp isOne
    obtain ⟨isHeld', isKept, isPublished⟩ := stillHeld entry isOther
    obtain ⟨sameGroup, notOlder⟩ := each entry isOther
    refine ⟨mem_of_getElem? isKept, ?_, ?_, ?_, ?_⟩
    · intro sameKeys
      have sameIndex := index_eq_of_key distinct isHeld' isHeld (sameKeys.trans sameKey.symm)
      have same : entry = (held, index) := by
        refine Prod.ext (Option.some_inj.mp ?_) sameIndex
        rw [← isHeld', ← isHeld, sameIndex]
      exact
        GroupLimit.not_leading_of_surplus _ publishedPerSlot (nodup_publishedOrder register)
          isSurplus (same ▸ isPublished)
    · exact (hasCertificate_trimPublished_iff isKept).mpr isPublished
    · exact sameGroup.trans sameSlot
    · rw [← sameAge]
      exact of_decide_eq_true notOlder

end

end IyaSts.PkiMerge
