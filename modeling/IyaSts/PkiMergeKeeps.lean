import IyaSts.PkiMerge
import Mathlib.Data.List.Basic
import Mathlib.Data.List.Induction

namespace IyaSts.PkiMerge

/-!
# When a revocation is kept

A merge answers each serial of each authority on its own, and then drops the
serials of live tiers.  Of two entries that differ it keeps the earliest, so a
stale copy that still shows a hold can put the hold back in the place of a
later revocation for good; where no copy does, no revocation is lost.
-/

open List

/-! ## What a row lists -/

/-- The list a row holds of an authority. -/
def listOf (row : Row) (ca : String) : List Entry := ((row.revoked.getD []).lookup ca).getD []

/-- The entry a row lists under a serial of an authority. -/
def entryOf (row : Row) (ca serial : String) : Option Entry :=
  bySerial (((row.revoked.getD []).lookup ca).getD []) serial

variable {list : List Entry} {serial : String} {entry : Entry} {α : Type}

/-- What is found under a serial carries it. -/
theorem serial_of_bySerial (found : bySerial list serial = some entry) :
    entry.serial = some serial := by
  have isOne := mem_of_getLast? found
  simpa using (mem_filter.mp isOne).2

/-- A serial that is found is one of the list's. -/
theorem mem_serialsOf (found : bySerial list serial = some entry) : serial ∈ serialsOf list := by
  have isOne := (mem_filter.mp (mem_of_getLast? found)).1
  exact mem_filterMap.mpr ⟨entry, isOne, serial_of_bySerial found⟩

/-- The keys of three objects are those of each. -/
theorem mem_keysOf (first second third : List String) (key : String) :
    key ∈ keysOf first second third ↔ key ∈ first ∨ key ∈ second ∨ key ∈ third := by
  have keys := KeyedList.mem_keys_unseen_iff id [] (first ++ second ++ third) key
  simpa [keysOf, or_assoc] using keys

/-- Where a list holds one value alone, that is its last. -/
theorem getLast?_of_all {list : List α} {value : α} (isOne : value ∈ list)
    (all : ∀ other ∈ list, other = value) :
    list.getLast? = some value := by
  cases isLast : list.getLast? with
  | none =>
    rw [List.getLast?_eq_none_iff.mp isLast] at isOne
    cases isOne
  | some last => rw [all last (mem_of_getLast? isLast)]

section

variable (time : String → Int)

/-- The earliest of the candidates is one of them. -/
theorem earliest_mem (first : Entry) (rest : List Entry) :
    earliest time first rest = first ∨ earliest time first rest ∈ rest := by
  induction rest generalizing first with
  | nil => exact .inl rfl
  | cons next rest ih =>
    unfold earliest
    split
    · rcases ih next with isNext | isLater
      · rw [isNext]
        exact .inr mem_cons_self
      · exact .inr (mem_cons_of_mem _ isLater)
    · rcases ih first with isFirst | isLater
      · exact .inl isFirst
      · exact .inr (mem_cons_of_mem _ isLater)

variable {entry : Entry}

/-- What is kept under a serial is what one of the sides holds there. -/
theorem mergeSerial_from {base mine theirs : Option Entry}
    (kept : mergeSerial time base mine theirs = some entry) :
    theirs = some entry ∨ mine = some entry ∨ base = some entry := by
  unfold mergeSerial at kept
  simp only at kept
  split at kept
  · cases kept
  split at kept
  · cases kept
  cases theirs with
  | none =>
    cases mine with
    | none => exact .inr (.inr kept)
    | some inMine => exact .inr (.inl kept)
  | some inTheirs =>
    cases mine with
    | none => exact .inl kept
    | some inMine =>
      simp only at kept
      split at kept
      · exact .inl kept
      · cases kept
        rcases earliest_mem time inTheirs (inMine :: base.toList) with
          isTheirs | isCopy
        · exact .inl (congrArg some isTheirs.symm)
        · rcases mem_cons.mp isCopy with isMine | isBase
          · exact .inr (.inl (congrArg some isMine.symm))
          · exact .inr (.inr (Option.mem_toList.mp isBase))


/-- What a merged list holds under a serial is what is kept there. -/
theorem mergeSerial_of_mem {base mine theirs : List Entry} {serial : String}
    (isMerged : entry ∈ mergeRevokedList time base mine theirs)
    (isSerial : entry.serial = some serial) :
    mergeSerial time (bySerial base serial) (bySerial mine serial)
      (bySerial theirs serial) = some entry := by
  obtain ⟨other, _, kept⟩ := mem_filterMap.mp isMerged
  have carries : entry.serial = some other := by
    rcases mergeSerial_from time kept with inTheirs | inMine | inBase
    · exact serial_of_bySerial inTheirs
    · exact serial_of_bySerial inMine
    · exact serial_of_bySerial inBase
  cases carries.symm.trans isSerial
  exact kept

/-- The merged list holds, under each serial, what is kept there. -/
theorem bySerial_mergeRevokedList (base mine theirs : List Entry) (serial : String) :
    bySerial (mergeRevokedList time base mine theirs) serial =
      mergeSerial time (bySerial base serial) (bySerial mine serial) (bySerial theirs serial) := by
  have only {entry : Entry}
      (isOne :
        entry ∈ (mergeRevokedList time base mine theirs).filter fun entry =>
          entry.serial = some serial) :
      mergeSerial time (bySerial base serial) (bySerial mine serial)
        (bySerial theirs serial) = some entry := by
    obtain ⟨isMerged, isSerial⟩ := mem_filter.mp isOne
    exact mergeSerial_of_mem time isMerged (of_decide_eq_true isSerial)
  cases kept : mergeSerial time (bySerial base serial) (bySerial mine serial)
      (bySerial theirs serial) with
  | none =>
    cases found : bySerial (mergeRevokedList time base mine theirs)
        serial with
    | none => rfl
    | some entry =>
      rw [only (mem_of_getLast? found)] at kept
      cases kept
  | some entry =>
    have isListed :
        entry.serial = some serial ∧
          (serial ∈ serialsOf theirs ∨ serial ∈ serialsOf mine ∨ serial ∈ serialsOf base) := by
      rcases mergeSerial_from time kept with inTheirs | inMine | inBase
      · exact ⟨serial_of_bySerial inTheirs, .inl (mem_serialsOf inTheirs)⟩
      · exact ⟨serial_of_bySerial inMine, .inr (.inl (mem_serialsOf inMine))⟩
      · exact ⟨serial_of_bySerial inBase, .inr (.inr (mem_serialsOf inBase))⟩
    apply getLast?_of_all
    · rw [mem_filter]
      refine ⟨mem_filterMap.mpr ⟨serial, ?_, kept⟩, decide_eq_true isListed.1⟩
      rw [mem_keysOf]
      exact isListed.2
    · intro other isOther
      have isKept := only isOther
      rw [kept] at isKept
      exact (Option.some.inj isKept).symm

/-! ## Maps made of keys -/

/-- A map made of keys reads, under each, what was made of it. -/
theorem lookup_filterMap_keys {α : Type} (make : String → Option α)
    (keys : List String) (key : String) :
    (keys.filterMap fun key => (make key).map fun value =>
        (key, value)).lookup key =
      if key ∈ keys then make key else none := by
  induction keys with
  | nil => rfl
  | cons first rest ih =>
    by_cases isFirst : key = first
    · subst isFirst
      cases made : make key with
      | none =>
        rw [filterMap_cons_none (by simp [made]), ih]
        simp [made]
      | some value =>
        rw [filterMap_cons_some (b := (key, value)) (by simp [made])]
        simp
    · have notFirst : (key == first) = false := by
        simpa using isFirst
      cases made : make first with
      | none =>
        rw [filterMap_cons_none (by simp [made]), ih]
        simp [isFirst]
      | some value =>
        rw [filterMap_cons_some (b := (first, value)) (by simp [made])]
        simp [lookup_cons, notFirst, ih, isFirst]

/-- The merged lists hold, under each authority, the list that is merged. -/
theorem lookup_mergeRevoked (base mine theirs : Lists) (ca : String) :
    ((mergeRevoked time base mine theirs).lookup ca).getD [] =
      mergeRevokedList time ((base.lookup ca).getD [])
        ((mine.lookup ca).getD []) ((theirs.lookup ca).getD []) := by
  have shape :
      mergeRevoked time base mine theirs =
        (keysOf (namesOf theirs) (namesOf mine) (namesOf base)).filterMap
          fun ca =>
            (if mergeRevokedList time ((base.lookup ca).getD [])
                  ((mine.lookup ca).getD []) ((theirs.lookup ca).getD []) ≠
                  [] ∨
                (mine.lookup ca).isSome ∨ (theirs.lookup ca).isSome then
              some (mergeRevokedList time ((base.lookup ca).getD [])
                ((mine.lookup ca).getD []) ((theirs.lookup ca).getD []))
            else
              none).map fun list => (ca, list) := by
    unfold mergeRevoked
    congr 1
    funext ca
    simp only
    split <;> rfl
  rw [shape, lookup_filterMap_keys]
  split
  · split
    · rfl
    · rename_i isEmpty
      rw [not_or, not_not] at isEmpty
      exact isEmpty.1.symm
  · rename_i notKey
    rw [mem_keysOf, not_or, not_or] at notKey
    have absent {lists : Lists} (notNamed : ca ∉ namesOf lists) : lists.lookup ca = none := by
      rw [lookup_eq_none_iff]
      intro held isHeld
      simp only [bne_iff_ne, ne_eq]
      rintro rfl
      exact notNamed (mem_map_of_mem isHeld)
    rw [absent notKey.1, absent notKey.2.1, absent notKey.2.2]
    rfl

/-- A list without the live serials finds what it found of the others. -/
theorem bySerial_filter_live (list : List Entry) (live : List String) (serial : String) :
    bySerial (list.filter fun entry => ¬ entry.isLive live) serial =
      if serial ∈ live then none else bySerial list serial := by
  unfold bySerial
  rw [filter_filter]
  split
  · rename_i isLive
    have nothing :
        (list.filter fun entry =>
          decide (entry.serial = some serial) && decide (¬ entry.isLive live = true)) = [] := by
      rw [filter_eq_nil_iff]
      intro entry _
      rw [Bool.and_eq_true, decide_eq_true_eq, decide_eq_true_eq]
      rintro ⟨isSerial, notLive⟩
      apply notLive
      simp [Entry.isLive, isSerial, isLive]
    rw [nothing]
    rfl
  · rename_i notLive
    congr 1
    apply filter_congr
    intro entry _
    by_cases isSerial : entry.serial = some serial
    · simp [isSerial, Entry.isLive, notLive]
    · simp [isSerial]

/-- A merged row lists what is merged, without the live tiers. -/
theorem listOf_merge (base mine theirs : Row) (ca : String) :
    listOf (merge time base mine theirs).row ca =
      (mergeRevokedList time (listOf base ca) (listOf mine ca)
        (listOf theirs ca)).filter fun entry =>
          ¬ entry.isLive (liveTierSerials (mergeMembers time base mine theirs)) := by
  have members :
      listOf (mergeMembers time base mine theirs) ca =
        mergeRevokedList time (listOf base ca) (listOf mine ca) (listOf theirs ca) := by
    unfold listOf
    rw [← lookup_mergeRevoked]
    unfold mergeMembers anySide
    simp only
    split
    · rfl
    · rename_i noSide
      rw [not_or, not_or] at noSide
      simp only [Option.not_isSome_iff_eq_none] at noSide
      rw [noSide.1, noSide.2.1, noSide.2.2]
      rfl
  rw [← members]
  unfold merge liveAgain listOf
  simp only
  generalize mergeMembers time base mine theirs = row
  cases row.revoked with
  | none => rfl
  | some lists =>
    simp only [Option.map_some, Option.getD_some]
    induction lists with
    | nil => rfl
    | cons held rest ih =>
      obtain ⟨first, list⟩ := held
      by_cases isFirst : ca = first
      · subst isFirst
        simp
      · have notFirst : (ca == first) = false := by
          simpa using isFirst
        simpa [lookup_cons, notFirst] using ih

/-- What a merged row lists: what is kept, unless it is a live tier's. -/
theorem entryOf_merge (base mine theirs : Row) (ca serial : String) :
    entryOf (merge time base mine theirs).row ca serial =
      if serial ∈ liveTierSerials (mergeMembers time base mine theirs) then
        none
      else
        mergeSerial time (entryOf base ca serial) (entryOf mine ca serial)
          (entryOf theirs ca serial) := by
  have listed :
      entryOf (merge time base mine theirs).row ca serial =
        bySerial (listOf (merge time base mine theirs).row ca) serial := rfl
  rw [listed, listOf_merge, bySerial_filter_live, bySerial_mergeRevokedList]
  rfl

end

/-! ## The tiers a row publishes -/

/-- A place of a row that holds a tier. -/
inductive Slot where
  | root
  | intermediate
  | issuing (key : String)
  deriving DecidableEq

/-- The tier a row holds in a slot. -/
def tierOf (row : Row) : Slot → Option Tier
  | .root => row.root
  | .intermediate => row.intermediate
  | .issuing key => (row.issuing.getD []).lookup key

/-- A row publishes a serial as a live tier. -/
def Publishes (row : Row) (serial : String) : Prop :=
  ∃ slot tier, tierOf row slot = some tier ∧ tier.serial = some serial

/-- The live serials are those the row publishes. -/
theorem mem_liveTierSerials_iff (row : Row) (serial : String) :
    serial ∈ liveTierSerials row ↔ Publishes row serial := by
  unfold liveTierSerials Publishes
  simp only [mem_filterMap, mem_append, Option.mem_toList]
  constructor
  · rintro ⟨tier, (isRoot | isIntermediate) | ⟨key, _, isIssuing⟩, isSerial⟩
    · exact ⟨.root, tier, isRoot, isSerial⟩
    · exact ⟨.intermediate, tier, isIntermediate, isSerial⟩
    · exact ⟨.issuing key, tier, isIssuing, isSerial⟩
  · rintro ⟨slot, tier, isTier, isSerial⟩
    refine ⟨tier, ?_, isSerial⟩
    cases slot with
    | root => exact .inl (.inl isTier)
    | intermediate => exact .inl (.inr isTier)
    | issuing key =>
      right
      refine ⟨key, ?_, isTier⟩
      obtain ⟨before, after, shape, _⟩ := lookup_eq_some_iff.mp isTier
      simp [namesOf, shape]

/--
The tier that stands in a slot: theirs, unless mine changed it and theirs did
not.
-/
def standing (base mine theirs : Row) (slot : Slot) : Option Tier :=
  if tierOf mine slot = tierOf base slot ∨
      tierOf theirs slot ≠ tierOf base slot then
    tierOf theirs slot
  else
    tierOf mine slot

/-- First writer wins. -/
theorem pick_value [DecidableEq α] (base mine theirs : Option α) :
    (pick base mine theirs).value =
      if mine = base ∨ theirs ≠ base then theirs else mine := by
  unfold pick
  by_cases mineSame : mine = base
  · simp [mineSame]
  · by_cases theirsSame : theirs = base
    · simp [mineSame, theirsSame]
    · by_cases equal : mine = theirs
      · simp [equal, theirsSame]
      · simp [mineSame, theirsSame, equal]

/-- A key no map has reads as nothing. -/
theorem lookup_of_not_named {members : List (String × α)} {key : String}
    (notNamed : key ∉ namesOf members) :
    members.lookup key = none := by
  rw [lookup_eq_none_iff]
  intro held isHeld
  simp only [bne_iff_ne, ne_eq]
  rintro rfl
  exact notNamed (mem_map_of_mem isHeld)

/-- A merged map reads, under each key, as the key's own answer. -/
theorem lookup_mergeKeyed [DecidableEq α] (base mine theirs : List (String × α)) (key : String) :
    (mergeKeyed base mine theirs).1.lookup key =
      (pick (base.lookup key) (mine.lookup key) (theirs.lookup key)).value := by
  unfold mergeKeyed
  simp only [lookup_filterMap_keys]
  split
  · rfl
  · rename_i notKey
    rw [mem_keysOf, not_or, not_or] at notKey
    rw [lookup_of_not_named notKey.1, lookup_of_not_named notKey.2.1,
      lookup_of_not_named notKey.2.2]
    rfl

section

variable (time : String → Int)

/-- The tiers of a merged row are those that stand. -/
theorem tierOf_merge (base mine theirs : Row) (slot : Slot) :
    tierOf (merge time base mine theirs).row slot = standing base mine theirs slot := by
  unfold standing
  cases slot with
  | root => exact pick_value ..
  | intermediate => exact pick_value ..
  | issuing key =>
    rw [← pick_value]
    unfold tierOf merge liveAgain mergeMembers either
    simp only
    split
    · exact lookup_mergeKeyed ..
    · rename_i noSide
      rw [not_or] at noSide
      simp only [Option.not_isSome_iff_eq_none] at noSide
      rw [noSide.1, noSide.2]
      simp [pick]

/-- The live tiers of a merged row. -/
theorem mem_liveTierSerials_merge (base mine theirs : Row) (serial : String) :
    serial ∈ liveTierSerials (mergeMembers time base mine theirs) ↔
      Publishes (merge time base mine theirs).row serial :=
  mem_liveTierSerials_iff (merge time base mine theirs).row serial

variable {base mine theirs : Row} {serial ca : String} {write : Write} {entry : Entry}

/-- A merged row does not list what it publishes. -/
theorem entryOf_merge_of_live
    (isLive : Publishes (merge time base mine theirs).row serial) (ca : String) :
    entryOf (merge time base mine theirs).row ca serial = none := by
  rw [entryOf_merge, if_pos ((mem_liveTierSerials_merge time ..).mpr isLive)]

/-- And lists what is kept of everything else. -/
theorem entryOf_merge_of_not_live (notLive : ¬ Publishes (merge time base mine theirs).row serial)
    (ca : String) :
    entryOf (merge time base mine theirs).row ca serial =
      mergeSerial time (entryOf base ca serial) (entryOf mine ca serial)
        (entryOf theirs ca serial) := by
  rw [entryOf_merge, if_neg (mt (mem_liveTierSerials_merge time ..).mp notLive)]

/-! ## One serial -/

/-- The earliest of some entries, the first of equals, is no hold. -/
def EarliestForGood (entries : List Entry) : Prop :=
  ∃ before one after,
    entries = before ++ one :: after ∧
      one.isHold = false ∧
      (∀ other ∈ before, time one.revokedAt < time other.revokedAt) ∧
      ∀ other ∈ after, time one.revokedAt ≤ time other.revokedAt

/-- What is not dated before the first leaves it the earliest. -/
theorem earliest_of_le {first : Entry} {rest : List Entry}
    (notBefore : ∀ other ∈ rest, time first.revokedAt ≤ time other.revokedAt) :
    earliest time first rest = first := by
  induction rest with
  | nil => rfl
  | cons next rest ih =>
    have later := notBefore next mem_cons_self
    rw [earliest, if_neg (by omega)]
    exact ih fun other isOther => notBefore other (mem_cons_of_mem _ isOther)

/-- The earliest is not dated after the first. -/
theorem earliest_le (first : Entry) (rest : List Entry) :
    time (earliest time first rest).revokedAt ≤ time first.revokedAt := by
  induction rest generalizing first with
  | nil => exact Int.le_refl _
  | cons next rest ih =>
    unfold earliest
    split
    · have below := ih next
      omega
    · exact ih first

/-- The entry that is dated before all others is the one that is found. -/
theorem earliest_of_split {first one : Entry} {rest before after : List Entry}
    (shape : first :: rest = before ++ one :: after)
    (beforeAll : ∀ other ∈ before, time one.revokedAt < time other.revokedAt)
    (notAfter : ∀ other ∈ after, time one.revokedAt ≤ time other.revokedAt) :
    earliest time first rest = one := by
  induction rest generalizing first before with
  | nil =>
    cases before with
    | nil =>
      cases shape
      rfl
    | cons held others => simp at shape
  | cons next rest ih =>
    cases before with
    | nil =>
      rw [nil_append, List.cons.injEq] at shape
      obtain ⟨rfl, rfl⟩ := shape
      exact earliest_of_le time notAfter
    | cons held others =>
      rw [cons_append, List.cons.injEq] at shape
      obtain ⟨rfl, shape⟩ := shape
      have firstLater := beforeAll first mem_cons_self
      have othersLater :
          ∀ other ∈ others, time one.revokedAt < time other.revokedAt :=
        fun other isOther => beforeAll other (mem_cons_of_mem _ isOther)
      unfold earliest
      split
      · exact ih shape othersLater
      · rename_i notEarlier
        cases others with
        | nil =>
          -- The next one is dated before the first.
          rw [nil_append, List.cons.injEq] at shape
          obtain ⟨rfl, rfl⟩ := shape
          omega
        | cons held others =>
          rw [cons_append, List.cons.injEq] at shape
          obtain ⟨rfl, rfl⟩ := shape
          apply @ih first (first :: others) rfl
          intro other isOther
          rcases mem_cons.mp isOther with rfl | isLater
          · exact firstLater
          · exact othersLater other (mem_cons_of_mem _ isLater)

/-- The entry that is found is dated before those before it, and not after. -/
theorem earliest_split (first : Entry) (rest : List Entry) :
    ∃ before after,
      first :: rest = before ++ earliest time first rest :: after ∧
        (∀ other ∈ before, time (earliest time first rest).revokedAt < time other.revokedAt) ∧
        ∀ other ∈ after, time (earliest time first rest).revokedAt ≤ time other.revokedAt := by
  induction rest generalizing first with
  | nil => exact ⟨[], [], rfl, by simp, by simp⟩
  | cons next rest ih =>
    unfold earliest
    split
    · rename_i isEarlier
      obtain ⟨before, after, shape, beforeAll, notAfter⟩ := ih next
      refine ⟨first :: before, after, by rw [shape]; rfl, ?_, notAfter⟩
      intro other isOther
      rcases mem_cons.mp isOther with rfl | isBefore
      · have below := earliest_le time next rest
        omega
      · exact beforeAll other isBefore
    · rename_i notEarlier
      obtain ⟨before, after, shape, beforeAll, notAfter⟩ := ih first
      cases before with
      | nil =>
        rw [nil_append, List.cons.injEq] at shape
        obtain ⟨isFirst, isRest⟩ := shape
        refine ⟨[], next :: rest, by rw [← isFirst]; rfl, by simp, ?_⟩
        intro other isOther
        rw [← isFirst]
        rcases mem_cons.mp isOther with rfl | isLater
        · omega
        · rw [isRest] at isLater
          rw [isFirst]
          exact notAfter other isLater
      | cons held others =>
        rw [cons_append, List.cons.injEq] at shape
        obtain ⟨rfl, isRest⟩ := shape
        have firstLater := beforeAll first mem_cons_self
        refine ⟨first :: next :: others, after, ?_, ?_, notAfter⟩
        · rw [cons_append, cons_append, ← isRest]
        · intro other isOther
          rcases mem_cons.mp isOther with rfl | isOther
          · exact firstLater
          · rcases mem_cons.mp isOther with rfl | isLater
            · omega
            · exact beforeAll other (mem_cons_of_mem _ isLater)

/--
A stored revocation for good is kept, with no later date, exactly where the
earliest of it and the copies that show the serial otherwise is no hold.
-/
theorem mergeSerial_for_good_iff {base mine : Option Entry} {kept : Entry}
    (forGood : kept.isHold = false) :
    (∃ entry,
      mergeSerial time base mine (some kept) = some entry ∧
        entry.isHold = false ∧
        time entry.revokedAt ≤ time kept.revokedAt) ↔
      ∀ copy, mine = some copy → copy ≠ kept →
        EarliestForGood time (kept :: copy :: base.toList) := by
  unfold mergeSerial
  simp only
  rw [if_neg, if_neg]
  · cases mine with
    | none => simpa using forGood
    | some copy =>
      by_cases isSame : kept = copy
      · subst isSame
        simpa using forGood
      · simp only [if_neg isSame]
        constructor
        · rintro ⟨entry, isEntry, entryForGood, _⟩ copy' isCopy _
          cases isCopy
          cases isEntry
          obtain ⟨before, after, shape, beforeAll, notAfter⟩ :=
            earliest_split time kept (copy :: base.toList)
          exact ⟨before, _, after, shape, entryForGood, beforeAll, notAfter⟩
        · intro noOlderHold
          obtain ⟨before, one, after, shape, isForGood, beforeAll,
            notAfter⟩ := noOlderHold copy rfl (Ne.symm isSame)
          refine ⟨_, rfl, ?_, earliest_le time _ _⟩
          rw [earliest_of_split time shape beforeAll notAfter]
          exact isForGood
  · rintro ⟨_, noTheirs, _⟩
    cases noTheirs
  · rintro ⟨isHold, _, noTheirs | rfl⟩
    · cases noTheirs
    · simp [forGood] at isHold

/-- What neither theirs nor a release takes away is there. -/
theorem mergeSerial_of_copy {base mine : Option Entry} {copy : Entry}
    (isCopy : mine.or base = some copy) (forGood : copy.isHold = false) :
    mergeSerial time base mine none = some copy := by
  unfold mergeSerial
  simp only
  cases mine with
  | none =>
    rw [Option.none_or] at isCopy
    subst isCopy
    simp [forGood]
  | some inMine =>
    rw [Option.some_or] at isCopy
    cases isCopy
    rw [if_neg, if_neg]
    · rintro ⟨isHold, _, isBase⟩
      rw [← isBase] at isHold
      simp [forGood] at isHold
    · rintro ⟨_, noMine, _⟩
      cases noMine

/-- A stored hold is taken away by a release of mine alone. -/
theorem mergeSerial_hold {base mine : Option Entry} {kept : Entry}
    (gone : mergeSerial time base mine (some kept) = none) :
    base.any Entry.isHold = true ∧ mine = none := by
  unfold mergeSerial at gone
  simp only at gone
  split at gone
  · rename_i released
    exact ⟨released.1, released.2.1⟩
  · split at gone
    · rename_i released
      cases released.2.1
    · cases mine with
      | none => cases gone
      | some copy =>
        simp only at gone
        split at gone <;> cases gone

/-! ## A run of writes -/

/-- A row lists a serial for good, with no later date than this. -/
def ListsForGood (row : Row) (ca serial revokedAt : String) : Prop :=
  ∃ entry,
    entryOf row ca serial = some entry ∧
      entry.isHold = false ∧
      time entry.revokedAt ≤ time revokedAt

/-- A writer's copy released a hold. -/
def Released (write : Write) (ca serial : String) : Prop :=
  (∃ held, entryOf write.base ca serial = some held ∧ held.isHold = true) ∧
    entryOf write.mine ca serial = none

/-- No revocation of a run is lost. -/
structure NeverLost (start : Row) (writes : List Write) : Prop where
  forGood :
    ∀ before between after, writes = before ++ between ++ after →
      ∀ ca serial entry,
        entryOf (storedAfter time start before) ca serial = some entry →
        entry.isHold = false →
        ListsForGood time (storedAfter time start (before ++ between)) ca
            serial entry.revokedAt ∨
          Publishes (storedAfter time start (before ++ between)) serial
  holds :
    ∀ before write after, writes = before ++ write :: after →
      ∀ ca serial entry,
        entryOf (storedAfter time start before) ca serial = some entry →
        entry.isHold = true →
        entryOf (storedAfter time start (before ++ [write])) ca serial = none →
        Released write ca serial ∨ Publishes (storedAfter time start (before ++ [write])) serial

/-- What a write has to meet, after the writes before it. -/
structure Meets (start : Row) (before : List Write) (write : Write) :
    Prop where
  /--
  Of the stored revocation for good and the copies that show the serial
  otherwise, the earliest dated is no hold.
  -/
  noOlderHold :
    ∀ ca serial kept copy,
      entryOf (storedAfter time start before) ca serial = some kept →
      kept.isHold = false →
      entryOf write.mine ca serial = some copy →
      copy ≠ kept →
      EarliestForGood time (kept :: copy :: (entryOf write.base ca serial).toList)
  /--
  A live tier that an earlier row listed for good stands, or the writer lists
  it again.
  -/
  tierStays :
    ∀ earlier later, before = earlier ++ later →
      ∀ ca serial entry,
        entryOf (storedAfter time start earlier) ca serial = some entry →
        entry.isHold = false →
        Publishes (storedAfter time start before) serial →
        entryOf (storedAfter time start before) ca serial = none →
        (∃ slot tier,
          standing write.base write.mine (storedAfter time start before)
              slot = some tier ∧
            tier.serial = some serial) ∨
          ∃ copy,
            (entryOf write.mine ca serial).or (entryOf write.base ca serial) =
                some copy ∧
              copy.isHold = false ∧
              time copy.revokedAt ≤ time entry.revokedAt

/-- One write after others. -/
theorem storedAfter_concat (start : Row) (before : List Write) (write : Write) :
    storedAfter time start (before ++ [write]) =
      (merge time write.base write.mine (storedAfter time start before)).row := by
  unfold storedAfter written
  rw [foldl_append]
  rfl

/-- A row lists a serial for good, or publishes it and lists it no more. -/
def Kept (row : Row) (ca serial revokedAt : String) : Prop :=
  ListsForGood time row ca serial revokedAt ∨ (Publishes row serial ∧ entryOf row ca serial = none)

/-- A write that meets the condition keeps what an earlier row listed. -/
theorem Meets.keeps {start : Row} {earlier later : List Write}
    (meets : Meets time start (earlier ++ later) write)
    (listed : entryOf (storedAfter time start earlier) ca serial = some entry)
    (forGood : entry.isHold = false)
    (kept : Kept time (storedAfter time start (earlier ++ later)) ca serial entry.revokedAt) :
    Kept time (storedAfter time start (earlier ++ later ++ [write])) ca serial entry.revokedAt := by
  rw [storedAfter_concat]
  by_cases isLive :
      Publishes (merge time write.base write.mine
        (storedAfter time start (earlier ++ later))).row serial
  · exact .inr ⟨isLive, entryOf_merge_of_live time isLive ca⟩
  left
  unfold ListsForGood
  rw [entryOf_merge_of_not_live time isLive]
  rcases kept with ⟨held, isHeld, heldForGood, notLater⟩ | ⟨wasLive, wasGone⟩
  · obtain ⟨next, isNext, nextForGood, nextNotLater⟩ :=
      (@mergeSerial_for_good_iff time (entryOf write.base ca serial)
        (entryOf write.mine ca serial) held heldForGood).mpr
        (fun copy isCopy differs =>
          meets.noOlderHold ca serial held copy isHeld heldForGood isCopy differs)
    rw [isHeld]
    exact ⟨next, isNext, nextForGood, Int.le_trans nextNotLater notLater⟩
  · rcases meets.tierStays earlier later rfl ca serial entry listed forGood
      wasLive wasGone with
      ⟨slot, tier, stands, isSerial⟩ | ⟨copy, isCopy, copyForGood, notLater⟩
    · refine absurd ⟨slot, tier, ?_, isSerial⟩ isLive
      rw [tierOf_merge]
      exact stands
    · rw [wasGone, mergeSerial_of_copy time isCopy copyForGood]
      exact ⟨copy, rfl, copyForGood, notLater⟩

/-- A hold that leaves the stored row was released, or is a live tier's. -/
theorem hold_leaves {stored : Row} (listed : entryOf stored ca serial = some entry)
    (gone : entryOf (merge time write.base write.mine stored).row ca serial = none) :
    Released write ca serial ∨ Publishes (merge time write.base write.mine stored).row serial := by
  by_cases isLive : Publishes (merge time write.base write.mine stored).row serial
  · exact .inr isLive
  · rw [entryOf_merge_of_not_live time isLive, listed] at gone
    obtain ⟨isHold, noMine⟩ := mergeSerial_hold time gone
    rw [Option.any_eq_true] at isHold
    exact .inl ⟨isHold, noMine⟩

/--
In every run whose writes meet the condition no revocation is lost: what a row
lists for good every later row lists for good with no later date, unless it
publishes the serial as a live tier, and a hold leaves the row by a release.
-/
theorem never_lost_of_meets (start : Row) (writes : List Write)
    (meets :
      ∀ before write after, writes = before ++ write :: after → Meets time start before write) :
    NeverLost time start writes where
  forGood := by
    intro before between after isRun ca serial entry listed forGood
    have kept :
        Kept time (storedAfter time start (before ++ between)) ca serial entry.revokedAt := by
      induction between using List.reverseRecOn generalizing after with
      | nil =>
        rw [append_nil]
        exact .inl ⟨entry, listed, forGood, Int.le_refl _⟩
      | append_singleton between write ih =>
        rw [← append_assoc]
        apply Meets.keeps time _ listed forGood
        · apply ih (write :: after)
          simpa using isRun
        · apply meets _ write after
          simpa using isRun
    rcases kept with lists | publishes
    · exact .inl lists
    · exact .inr publishes.1
  holds := by
    intro before write after isRun ca serial entry listed isHold gone
    rw [storedAfter_concat] at gone ⊢
    exact hold_leaves time listed gone

end

/-! ## A hold put back -/

/-- The time of two dates. -/
def isoTime (text : String) : Int :=
  if text = "2026-09-01T00:00:00.000Z" then 1788220800000
  else if text = "2026-09-05T00:00:00.000Z" then 1788566400000
  else 0

/-- A certificate on hold since the first of the month. -/
def heldEntry : Entry := ⟨"0a1b", "2026-09-01T00:00:00.000Z", "certificateHold", "\x7b\x7d"⟩

/-- The same certificate, revoked for good on the fifth. -/
def revokedEntry : Entry := ⟨"0a1b", "2026-09-05T00:00:00.000Z", "keyCompromise", "\x7b\x7d"⟩

/-- A row whose one authority lists these. -/
def rowOf (entries : List Entry) : Row :=
  { Row.empty with revoked := some [("jose", entries)] }

/-- One node releases the hold. -/
def releaseWrite : Write := ⟨rowOf [heldEntry], rowOf []⟩

/-- It revokes for good from the row it wrote. -/
def revokeWrite : Write := ⟨rowOf [], rowOf [revokedEntry]⟩

/-- Another node, which has not seen either, counts a list of its own up. -/
def staleWrite : Write :=
  ⟨rowOf [heldEntry],
    { rowOf [heldEntry] with crlNumbers := some [("root", 1)] }⟩

/-- The stale copy's hold replaces the revocation for good. -/
theorem stale_hold_put_back :
    releaseWrite.base = rowOf [heldEntry] ∧
      revokeWrite.base = storedAfter isoTime (rowOf [heldEntry]) [releaseWrite] ∧
      staleWrite.base = rowOf [heldEntry] ∧
      ¬ NeverLost isoTime (rowOf [heldEntry]) [releaseWrite, revokeWrite, staleWrite] := by
  refine ⟨rfl, by decide +kernel, rfl, ?_⟩
  intro neverLost
  have listed :
      entryOf (storedAfter isoTime (rowOf [heldEntry])
        [releaseWrite, revokeWrite]) "jose" "a1b" = some revokedEntry := by
    decide +kernel
  have putBack :
      entryOf (storedAfter isoTime (rowOf [heldEntry])
        [releaseWrite, revokeWrite, staleWrite]) "jose" "a1b" = some heldEntry := by
    decide +kernel
  have noTiers :
      liveTierSerials (storedAfter isoTime (rowOf [heldEntry])
        [releaseWrite, revokeWrite, staleWrite]) = [] := by
    decide +kernel
  rcases neverLost.forGood [releaseWrite, revokeWrite] [staleWrite] [] rfl
    "jose" "a1b" revokedEntry listed (by decide) with
    ⟨entry, isEntry, forGood, _⟩ | isLive
  · have isHeld := putBack.symm.trans isEntry
    cases isHeld
    cases forGood
  · have isSerial := (mem_liveTierSerials_iff _ _).mpr isLive
    rw [show [releaseWrite, revokeWrite] ++ [staleWrite] =
      [releaseWrite, revokeWrite, staleWrite] from rfl, noTiers] at isSerial
    cases isSerial

/-- A stale copy that shows no entry takes none away. -/
theorem never_lost_of_stale_copy :
    NeverLost isoTime (rowOf [revokedEntry]) [⟨rowOf [], rowOf []⟩] := by
  apply never_lost_of_meets
  intro before write after isRun
  have isFirst : before = [] ∧ write = ⟨rowOf [], rowOf []⟩ := by
    cases before with
    | nil =>
      cases isRun
      exact ⟨rfl, rfl⟩
    | cons first rest => simp at isRun
  obtain ⟨rfl, rfl⟩ := isFirst
  constructor
  · intro ca serial kept copy _ _ isCopy _
    have nothing : entryOf (rowOf []) ca serial = none := by
      unfold entryOf rowOf
      by_cases isJose : ca = "jose"
      · simp [isJose, bySerial]
      · have notJose : (ca == "jose") = false := by
          simpa using isJose
        simp [lookup_cons, notJose, bySerial]
    rw [nothing] at isCopy
    cases isCopy
  · intro earlier later _ ca serial entry _ _ isLive _
    have isSerial := (mem_liveTierSerials_iff _ _).mpr isLive
    cases isSerial

end IyaSts.PkiMerge
