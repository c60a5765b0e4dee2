import IyaSts.PkiMergeKeeps

namespace IyaSts.PkiMerge

/-!
# The number a merged list is stored under

Numbers are merged by what the writers added to them, lists by what they hold.  A list that
no bump of mine stands behind can still differ from theirs, and then it is stored under the
number theirs has already.
-/

open List

/-! ## What is claimed -/

/-- The number a row holds of an authority's list. -/
def numberOf (row : Row) (ca : String) : Nat := ((row.crlNumbers.getD []).lookup ca).getD 0

/-- A list shows a serial, revoked at this date and for this reason. -/
def Shows (list : List Entry) (serial revokedAt reason : String) : Prop :=
  ∃ entry ∈ list, entry.serial = some serial ∧ entry.revokedAt = revokedAt ∧ entry.reason = reason

/-- Two lists that differ in no serial, date or reason. -/
def SameList (first second : List Entry) : Prop :=
  ∀ serial revokedAt reason,
    Shows first serial revokedAt reason ↔ Shows second serial revokedAt reason

/-- A writer that raised the number where it changed the list, and never lowered it. -/
structure Raises (base side : Row) (ca : String) : Prop where
  notLowered : numberOf base ca ≤ numberOf side ca
  raised : listOf side ca ≠ listOf base ca → numberOf base ca < numberOf side ca

section

variable (time : String → Int)

/-- The merged number is above both, and above theirs where the list is another. -/
structure NumberRises (base mine theirs : Row) (ca : String) : Prop where
  mineReached : numberOf mine ca ≤ numberOf (merge time base mine theirs).row ca
  theirsReached : numberOf theirs ca ≤ numberOf (merge time base mine theirs).row ca
  otherList :
    ¬ SameList (listOf (merge time base mine theirs).row ca) (listOf theirs ca) →
      numberOf theirs ca < numberOf (merge time base mine theirs).row ca

/-- A serial that is live in one of the slots, of the tiers that stand there. -/
def Standing (base mine theirs : Row) (serial : String) : Prop :=
  ∃ slot tier, standing base mine theirs slot = some tier ∧ tier.serial = some serial

/-- What theirs lists under a serial is what a merge with an old copy would keep. -/
structure Undisturbed (base mine theirs : Row) (ca serial : String) : Prop where
  /-- It is no live tier, it is listed once, and base has no earlier date for it. -/
  listed :
    ∀ entry,
      entryOf theirs ca serial = some entry →
        ¬ Standing base mine theirs serial ∧
          (∀ other ∈ listOf theirs ca,
            other.serial = some serial →
              other.revokedAt = entry.revokedAt ∧ other.reason = entry.reason) ∧
          ∀ earlier,
            entryOf base ca serial = some earlier → ¬ time earlier.revokedAt < time entry.revokedAt
  /-- Base has nothing else than a hold that theirs released. -/
  absent :
    entryOf theirs ca serial = none →
      ∀ entry,
        entryOf base ca serial = some entry → entry.isHold = true ∨ Standing base mine theirs serial

/-! ## Numbers -/

variable (base mine theirs : Row)

/-- A merged row holds the merged number. -/
theorem numberOf_merge (ca : String) :
    numberOf (merge time base mine theirs).row ca =
      mergeCrlNumber (some (numberOf base ca)) (some (numberOf mine ca))
        (some (numberOf theirs ca)) := by
  have held (side : Row) : numberOf side ca = ((side.crlNumbers.getD []).lookup ca).getD 0 := rfl
  have merged :
      ((mergeCrlNumbers (base.crlNumbers.getD []) (mine.crlNumbers.getD [])
        (theirs.crlNumbers.getD [])).lookup ca).getD 0 =
        mergeCrlNumber (some (numberOf base ca)) (some (numberOf mine ca))
          (some (numberOf theirs ca)) := by
    have shape :
        mergeCrlNumbers (base.crlNumbers.getD []) (mine.crlNumbers.getD [])
            (theirs.crlNumbers.getD []) =
          (keysOf (namesOf (theirs.crlNumbers.getD []))
              (namesOf (mine.crlNumbers.getD []))
              (namesOf (base.crlNumbers.getD []))).filterMap fun ca =>
            (some (mergeCrlNumber ((base.crlNumbers.getD []).lookup ca)
              ((mine.crlNumbers.getD []).lookup ca)
              ((theirs.crlNumbers.getD []).lookup ca))).map fun number =>
                (ca, number) := by
      simp only [Option.map_some, filterMap_eq_map']
      rfl
    rw [shape, lookup_filterMap_keys]
    split
    · rfl
    · rename_i notKey
      rw [mem_keysOf, not_or, not_or] at notKey
      rw [held, held, held, lookup_of_not_named notKey.1,
        lookup_of_not_named notKey.2.1, lookup_of_not_named notKey.2.2]
      rfl
  rw [← merged]
  unfold merge liveAgain mergeMembers anySide numberOf
  simp only
  split
  · rfl
  · rename_i noSide
    rw [not_or, not_or] at noSide
    simp only [Option.not_isSome_iff_eq_none] at noSide
    rw [noSide.1, noSide.2.1, noSide.2.2]
    rfl

/-- The merged number is at least either writer's. -/
theorem le_mergeCrlNumber (base mine theirs : Nat) :
    mine ≤ mergeCrlNumber (some base) (some mine) (some theirs) ∧
      theirs ≤ mergeCrlNumber (some base) (some mine) (some theirs) := by
  unfold mergeCrlNumber
  simp only [Option.getD_some]
  split
  · omega
  · omega

/-- It is above theirs exactly where mine raised the number. -/
theorem lt_mergeCrlNumber_iff {base mine theirs : Nat} (mineNotLowered : base ≤ mine)
    (theirsNotLowered : base ≤ theirs) :
    theirs < mergeCrlNumber (some base) (some mine) (some theirs) ↔ base < mine := by
  unfold mergeCrlNumber
  simp only [Option.getD_some]
  split
  · omega
  · omega

/-! ## Lists -/

/-- A merged row shows, under a serial, what is kept there. -/
theorem shows_merge_iff (ca serial revokedAt reason : String) :
    Shows (listOf (merge time base mine theirs).row ca) serial revokedAt reason ↔
      ∃ entry,
        entryOf (merge time base mine theirs).row ca serial = some entry ∧
          entry.revokedAt = revokedAt ∧ entry.reason = reason := by
  constructor
  · rintro ⟨entry, isListed, isSerial, sameDate, sameReason⟩
    refine ⟨entry, ?_, sameDate, sameReason⟩
    rw [listOf_merge, mem_filter, decide_eq_true_eq] at isListed
    obtain ⟨isMerged, notLive⟩ := isListed
    rw [entryOf_merge, if_neg]
    · exact mergeSerial_of_mem time isMerged isSerial
    · intro isLive
      apply notLive
      rw [Entry.isLive, isSerial]
      exact decide_eq_true isLive
  · rintro ⟨entry, isKept, sameDate, sameReason⟩
    exact ⟨entry, (mem_filter.mp (mem_of_getLast? isKept)).1,
      serial_of_bySerial isKept, sameDate, sameReason⟩

/-- A live serial of the merged row is one that stands. -/
theorem publishes_merge_iff (serial : String) :
    Publishes (merge time base mine theirs).row serial ↔ Standing base mine theirs serial := by
  unfold Publishes Standing
  simp only [tierOf_merge]

variable {list : List Entry} {serial : String} {entry : Entry}

/-- What a list shows under a serial it finds nothing under. -/
theorem shows_of_bySerial_none (notFound : bySerial list serial = none)
    (revokedAt reason : String) :
    ¬ Shows list serial revokedAt reason := by
  rintro ⟨entry, isListed, isSerial, -⟩
  have isOne : entry ∈ list.filter fun entry => entry.serial = some serial :=
    mem_filter.mpr ⟨isListed, decide_eq_true isSerial⟩
  rw [List.getLast?_eq_none_iff.mp notFound] at isOne
  cases isOne

theorem shows_of_bySerial (found : bySerial list serial = some entry) :
    Shows list serial entry.revokedAt entry.reason :=
  ⟨entry, (mem_filter.mp (mem_of_getLast? found)).1, serial_of_bySerial found, rfl, rfl⟩

/-- What is kept of a copy that base is too. -/
theorem mergeSerial_of_old (base theirs : Option Entry) :
    mergeSerial time base base theirs =
      match theirs, base with
      | some inTheirs, some inBase =>
        if time inBase.revokedAt < time inTheirs.revokedAt then some inBase
        else some inTheirs
      | some inTheirs, none => some inTheirs
      | none, some inBase => if inBase.isHold then none else some inBase
      | none, none => none := by
  cases base with
  | none => cases theirs <;> simp [mergeSerial]
  | some inBase =>
    cases theirs with
    | none => simp [mergeSerial]
    | some inTheirs =>
      by_cases same : inTheirs = inBase
      · subst same
        simp [mergeSerial]
      · by_cases isEarlier : time inBase.revokedAt < time inTheirs.revokedAt
        · simp [mergeSerial, same, earliest, isEarlier]
        · simp [mergeSerial, same, earliest, isEarlier]

/-- A list shows one entry alone under a serial where the others are like it. -/
theorem shows_only_iff (found : bySerial list serial = some entry) :
    (∀ revokedAt reason,
      (∃ kept, some entry = some kept ∧ kept.revokedAt = revokedAt ∧ kept.reason = reason) ↔
        Shows list serial revokedAt reason) ↔
      ∀ other ∈ list,
        other.serial = some serial →
          other.revokedAt = entry.revokedAt ∧ other.reason = entry.reason := by
  constructor
  · intro same other isListed isSerial
    obtain ⟨kept, isKept, sameDate, sameReason⟩ :=
      (same other.revokedAt other.reason).mpr ⟨other, isListed, isSerial, rfl, rfl⟩
    cases isKept
    exact ⟨sameDate.symm, sameReason.symm⟩
  · intro alike revokedAt reason
    constructor
    · rintro ⟨kept, isKept, rfl, rfl⟩
      cases isKept
      exact shows_of_bySerial found
    · rintro ⟨other, isListed, isSerial, rfl, rfl⟩
      obtain ⟨sameDate, sameReason⟩ := alike other isListed isSerial
      exact ⟨entry, rfl, sameDate.symm, sameReason.symm⟩

/-- A merge with an old copy leaves a serial as theirs where it is undisturbed. -/
theorem sameSerial_iff {base mine theirs : Row} {ca : String}
    (old : listOf mine ca = listOf base ca) (serial : String) :
    (∀ revokedAt reason,
      Shows (listOf (merge time base mine theirs).row ca) serial revokedAt reason ↔
        Shows (listOf theirs ca) serial revokedAt reason) ↔
      Undisturbed time base mine theirs ca serial := by
  simp only [shows_merge_iff]
  have oldEntry : entryOf mine ca serial = entryOf base ca serial :=
    congrArg (bySerial · serial) old
  by_cases isStanding : Standing base mine theirs serial
  · rw [entryOf_merge_of_live time ((publishes_merge_iff time ..).mpr isStanding)]
    cases inTheirs : entryOf theirs ca serial with
    | none =>
      refine iff_of_true ?_ ⟨?_, fun _ _ _ => .inr isStanding⟩
      · intro revokedAt reason
        refine iff_of_false ?_ (shows_of_bySerial_none inTheirs _ _)
        rintro ⟨kept, isKept, -⟩
        cases isKept
      · intro entry isTheirs
        rw [inTheirs] at isTheirs
        cases isTheirs
    | some entry =>
      refine iff_of_false ?_ fun undisturbed => (undisturbed.listed entry inTheirs).1 isStanding
      intro same
      obtain ⟨kept, isKept, -⟩ :=
        (same entry.revokedAt entry.reason).mpr (shows_of_bySerial inTheirs)
      cases isKept
  rw [entryOf_merge_of_not_live time (mt (publishes_merge_iff time ..).mp isStanding),
    oldEntry, mergeSerial_of_old]
  cases inTheirs : entryOf theirs ca serial with
  | none =>
    have noneShown := shows_of_bySerial_none inTheirs
    have noneListed (entry : Entry) : entryOf theirs ca serial ≠ some entry := by
      rw [inTheirs]
      simp
    have keeps : Undisturbed time base mine theirs ca serial ↔
        ∀ entry, entryOf base ca serial = some entry → entry.isHold = true := by
      constructor
      · intro undisturbed entry inBase
        exact (undisturbed.absent inTheirs entry inBase).resolve_right isStanding
      · intro isHold
        exact ⟨fun entry isTheirs => absurd isTheirs (noneListed entry),
          fun _ entry inBase => .inl (isHold entry inBase)⟩
    rw [keeps]
    cases inBase : entryOf base ca serial with
    | none =>
      refine iff_of_true ?_ fun entry isBase => by cases isBase
      intro revokedAt reason
      refine iff_of_false ?_ (noneShown revokedAt reason)
      rintro ⟨kept, isKept, -⟩
      cases isKept
    | some old =>
      by_cases isHold : old.isHold = true
      · refine iff_of_true ?_ fun entry isBase => by cases isBase; exact isHold
        intro revokedAt reason
        refine iff_of_false ?_ (noneShown revokedAt reason)
        rintro ⟨kept, isKept, -⟩
        simp only [isHold, if_true] at isKept
        cases isKept
      · refine iff_of_false ?_ fun allHolds => isHold (allHolds old rfl)
        intro same
        refine noneShown old.revokedAt old.reason ((same _ _).mp ⟨old, ?_, rfl, rfl⟩)
        simp only [if_neg isHold]
  | some entry =>
    have alike := shows_only_iff inTheirs
    have keeps : Undisturbed time base mine theirs ca serial ↔
        (∀ other ∈ listOf theirs ca,
          other.serial = some serial →
            other.revokedAt = entry.revokedAt ∧ other.reason = entry.reason) ∧
          ∀ earlier, entryOf base ca serial = some earlier →
            ¬ time earlier.revokedAt < time entry.revokedAt := by
      constructor
      · intro undisturbed
        exact (undisturbed.listed entry inTheirs).2
      · intro holds
        refine ⟨fun other isTheirs => ?_, fun isNone => ?_⟩
        · cases inTheirs.symm.trans isTheirs
          exact ⟨isStanding, holds⟩
        · rw [inTheirs] at isNone
          cases isNone
    rw [keeps]
    cases inBase : entryOf base ca serial with
    | none =>
      refine alike.trans ⟨fun others => ⟨others, fun earlier isBase => by cases isBase⟩,
        fun holds => holds.1⟩
    | some old =>
      by_cases isEarlier : time old.revokedAt < time entry.revokedAt
      · refine iff_of_false ?_ fun holds => holds.2 old rfl isEarlier
        intro same
        obtain ⟨kept, isKept, sameDate, -⟩ :=
          (same entry.revokedAt entry.reason).mpr (shows_of_bySerial inTheirs)
        simp only [if_pos isEarlier] at isKept
        cases isKept
        rw [sameDate] at isEarlier
        exact Int.lt_irrefl _ isEarlier
      · simp only [if_neg isEarlier]
        refine alike.trans ⟨fun others => ⟨others, fun earlier isBase => ?_⟩, fun holds => holds.1⟩
        cases isBase
        exact isEarlier

end

/-- A list is stored under a number of its own exactly where mine raised the number, or
every serial of theirs is undisturbed. -/
theorem number_rises_iff (time : String → Int)
    (base mine theirs : Row) (ca : String) (mineRaises : Raises base mine ca)
    (theirsRaises : Raises base theirs ca) :
    NumberRises time base mine theirs ca ↔
      numberOf base ca < numberOf mine ca ∨
        ∀ serial, Undisturbed time base mine theirs ca serial := by
  obtain ⟨mineReached, theirsReached⟩ :=
    le_mergeCrlNumber (numberOf base ca) (numberOf mine ca) (numberOf theirs ca)
  have rises := lt_mergeCrlNumber_iff mineRaises.notLowered theirsRaises.notLowered
  rw [← numberOf_merge time] at mineReached theirsReached rises
  constructor
  · intro number
    by_cases mineRose : numberOf base ca < numberOf mine ca
    · exact .inl mineRose
    · right
      have old : listOf mine ca = listOf base ca := by
        by_contra changed
        exact mineRose (mineRaises.raised changed)
      have same : SameList (listOf (merge time base mine theirs).row ca) (listOf theirs ca) := by
        by_contra other
        exact mineRose (rises.mp (number.otherList other))
      exact fun serial => (sameSerial_iff time old serial).mp (same serial)
  · intro holds
    refine ⟨mineReached, theirsReached, fun other => ?_⟩
    rcases holds with mineRose | undisturbed
    · exact rises.mpr mineRose
    · by_contra notAbove
      have old : listOf mine ca = listOf base ca := by
        by_contra changed
        exact notAbove (rises.mpr (mineRaises.raised changed))
      exact other fun serial => (sameSerial_iff time old serial).mpr (undisturbed serial)

/-! ## A live tier that is revoked -/

/-- A row that publishes an authority, with this list of the root. -/
def liveRow (revoked : List Entry) (number : Nat) : Row :=
  { Row.empty with
    intermediate := some (.authority "0a" "")
    revoked := some [("root", revoked)]
    crlNumbers := some [("root", number)] }

/-- The revocation of the authority. -/
def liveEntry : Entry := ⟨"0a", "2026-09-22T00:00:00.000Z", "superseded", ""⟩

/-- The revocation of another. -/
def otherEntry : Entry := ⟨"0b", "2026-09-22T00:00:00.000Z", "superseded", ""⟩

/-- The list without it is stored under the number of the list with it. -/
theorem liveEntry_dropped :
    ¬ NumberRises isoTime (liveRow [] 1) (liveRow [] 1) (liveRow [liveEntry] 2) "root" := by
  intro number
  have raised := number.otherList ?_
  · revert raised
    decide +kernel
  · intro same
    obtain ⟨kept, isKept, -⟩ := (same "a" liveEntry.revokedAt liveEntry.reason).mpr
      ⟨liveEntry, by decide +kernel, by decide +kernel, rfl, rfl⟩
    revert kept
    decide +kernel

/-- What both writers revoked is stored under both bumps. -/
theorem otherEntry_numbered :
    NumberRises isoTime (liveRow [] 1) (liveRow [otherEntry] 2) (liveRow [liveEntry] 2) "root" :=
  (number_rises_iff isoTime _ _ _ _
    ⟨by decide +kernel, fun _ => by decide +kernel⟩
    ⟨by decide +kernel, fun _ => by decide +kernel⟩).mpr (.inl (by decide +kernel))

end IyaSts.PkiMerge
