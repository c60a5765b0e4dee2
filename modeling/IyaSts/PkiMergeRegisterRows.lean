import IyaSts.PkiMergeRegisterRetries
import Mathlib.Data.String.Basic

namespace IyaSts.PkiMerge

/-!
# The issued register of a merged row

A merge of whole rows fills the register from both writers' registers and from
the slots they changed differently.  Merging the result again with the same copy
displaces nothing that the first merge did not.
-/

open List

/-- Both writers changed a slot, and differently. -/
structure ChangedBoth (base mine theirs : WholeRow) (slot : String) : Prop where
  byMine : mine.slots.lookup slot ≠ base.slots.lookup slot
  byTheirs : theirs.slots.lookup slot ≠ base.slots.lookup slot
  differently : mine.slots.lookup slot ≠ theirs.slots.lookup slot

/-! ## Slots -/

variable {α : Type}

theorem pick_conflict_iff [DecidableEq α] (base mine theirs : Option α) :
    (pick base mine theirs).conflict = true ↔ mine ≠ base ∧ theirs ≠ base ∧ mine ≠ theirs := by
  unfold pick
  split
  · rename_i isBase
    simp [isBase]
  · rename_i notBase
    split
    · rename_i sameAs
      refine iff_of_false Bool.false_ne_true ?_
      rintro ⟨_, theirsChanged, differ⟩
      exact sameAs.elim theirsChanged differ
    · rename_i differ
      rw [not_or] at differ
      exact iff_of_true rfl ⟨notBase, differ.1, differ.2⟩

/-- What is picked against the same base a second time is no new conflict. -/
theorem pick_conflict_again [DecidableEq α] {base mine theirs : Option α}
    (conflict : (pick base mine (pick base mine theirs).value).conflict = true) :
    (pick base mine theirs).conflict = true := by
  obtain ⟨mineChanged, pickedChanged, differ⟩ := (pick_conflict_iff ..).mp conflict
  rw [pick_value] at pickedChanged differ
  rw [pick_conflict_iff]
  refine ⟨mineChanged, ?_, ?_⟩
  · rintro rfl
    simp [mineChanged] at differ
  · rintro rfl
    simp [mineChanged] at differ

theorem mem_conflicts_iff {base mine theirs : WholeRow} {slot : String} :
    slot ∈ conflicts base mine theirs ↔ ChangedBoth base mine theirs slot := by
  have isConflict :=
    pick_conflict_iff (base.slots.lookup slot) (mine.slots.lookup slot) (theirs.slots.lookup slot)
  rw [conflicts, mergeKeyed, mem_filter, isConflict, mem_keysOf]
  constructor
  · rintro ⟨_, byMine, byTheirs, differently⟩
    exact ⟨byMine, byTheirs, differently⟩
  · rintro ⟨byMine, byTheirs, differently⟩
    refine ⟨?_, byMine, byTheirs, differently⟩
    by_contra notNamed
    rw [not_or, not_or] at notNamed
    apply differently
    rw [lookup_of_not_named notNamed.1, lookup_of_not_named notNamed.2.1]

section

variable {κ : Type} [LinearOrder κ] {collate : String → κ}
variable {time : String → Int} {dates : Dates} {now : Int}

/-- A slot of a merged row is what the three rows' slots answer. -/
theorem lookup_slots_mergeWhole (base mine theirs : WholeRow) (slot : String) :
    (mergeWhole collate time dates now base mine theirs).row.slots.lookup slot =
      (pick (base.slots.lookup slot) (mine.slots.lookup slot)
        (theirs.slots.lookup slot)).value := by
  rw [mergeWhole, WholeRow.slots]
  dsimp only
  unfold either
  split
  · exact lookup_mergeKeyed ..
  · rename_i noSide
    rw [not_or, Option.not_isSome_iff_eq_none, Option.not_isSome_iff_eq_none] at noSide
    rw [WholeRow.slots, WholeRow.slots, WholeRow.slots, noSide.1, noSide.2, pick_value]
    split <;> rfl

/-- The base of a writer that merges its copy again. -/
inductive AgainFrom (base merged : WholeRow) : WholeRow → Prop where
  /-- The row it took its copy from. -/
  | sameBase : AgainFrom base merged base
  /-- The row it wrote. -/
  | written : AgainFrom base merged merged

variable {base mine theirs again : WholeRow}

/-- Merged again, a copy displaces nothing that it did not displace. -/
theorem displaced_again
    (isAgain : AgainFrom base (mergeWhole collate time dates now base mine theirs).row again) :
    displaced dates again mine (mergeWhole collate time dates now base mine theirs).row ⊆
      displaced dates base mine theirs := by
  refine filterMap_subset _ ?_
  intro slot isConflict
  rw [mem_conflicts_iff] at isConflict ⊢
  obtain ⟨byMine, byTheirs, differently⟩ := isConflict
  cases isAgain with
  | sameBase =>
    have conflict :=
      (pick_conflict_iff (base.slots.lookup slot) (mine.slots.lookup slot) _).mpr
        ⟨byMine, byTheirs, differently⟩
    rw [lookup_slots_mergeWhole] at conflict
    obtain ⟨byMine, byTheirs, differently⟩ :=
      (pick_conflict_iff ..).mp (pick_conflict_again conflict)
    exact ⟨byMine, byTheirs, differently⟩
  | written => exact absurd rfl byTheirs

/-! ## The register -/

/-- The copies of records that a merge finds, in the order it finds them. -/
def copies (dates : Dates) (base mine theirs : WholeRow) : List Issued :=
  theirs.register ++ (mine.register ++ displaced dates base mine theirs)

/-- The register of a merged row. -/
theorem register_mergeWhole (base mine theirs : WholeRow) :
    (mergeWhole collate time dates now base mine theirs).row.register =
      mergedRegister collate dates now (copies dates base mine theirs) := by
  rw [mergeWhole, WholeRow.register]
  dsimp only
  split
  · rw [Option.getD_some, mergeIssued, append_assoc]
    rfl
  · rename_i nothing
    rw [not_or, not_or, Option.not_isSome_iff_eq_none, Option.not_isSome_iff_eq_none,
      not_not] at nothing
    obtain ⟨noMine, noTheirs, noneDisplaced⟩ := nothing
    rw [copies, WholeRow.register, WholeRow.register, noMine, noTheirs, noneDisplaced]
    rfl

/-- The register of a row that is merged again. -/
theorem register_again
    (isAgain : AgainFrom base (mergeWhole collate time dates now base mine theirs).row again) :
    ∃ twice,
      twice ⊆ copies dates base mine theirs ∧
        (mergeWhole collate time dates now again mine
            (mergeWhole collate time dates now base mine theirs).row).row.register =
          mergedRegister collate dates now
            (mergedRegister collate dates now (copies dates base mine theirs) ++ twice) := by
  refine ⟨_, ?_, by rw [register_mergeWhole, copies, register_mergeWhole]⟩
  refine append_subset.mpr ⟨?_, ?_⟩
  · intro one isMine
    exact mem_append_right _ (mem_append_left _ isMine)
  · intro one isDisplaced
    exact mem_append_right _ (mem_append_right _ (displaced_again isAgain isDisplaced))

theorem key_displacedRecord (slot : String) (was : Certificate) :
    (displacedRecord dates slot was).key =
      (normalSerial was.serialHex, orElse was.useCase (useCaseOf slot)) :=
  rfl

/-- What is displaced from a slot is one of the copies. -/
theorem displacedRecord_mem_copies {slot : String} {was : Certificate}
    (changed : ChangedBoth base mine theirs slot)
    (isHeld : mine.slots.lookup slot = some (some was)) (hasSerial : was.serialHex ≠ "") :
    displacedRecord dates slot was ∈ copies dates base mine theirs := by
  refine mem_append_right _ (mem_append_right _ ?_)
  refine mem_filterMap.mpr ⟨slot, mem_conflicts_iff.mpr changed, ?_⟩
  rw [displacedFrom, isHeld]
  exact if_neg hasSerial

/-! ## What a merge keeps -/

/-- What a merge keeps of the register, and what merging again leaves. -/
structure RegisterKept (collate : String → κ) (time : String → Int) (dates : Dates) (now : Int)
    (base mine theirs : WholeRow) : Prop where
  /-- A serial that has not expired has one record. -/
  held :
    ∀ one ∈ theirs.register ++ mine.register,
      Current dates now one →
        OneRecord (mergeWhole collate time dates now base mine theirs).row.register one.key
  /-- So has a certificate that has not expired and that mine had in a slot it did not get. -/
  displaced :
    ∀ slot was,
      ChangedBoth base mine theirs slot →
        mine.slots.lookup slot = some (some was) →
          was.serialHex ≠ "" →
            hasCome dates now was.notAfter = false →
              OneRecord (mergeWhole collate time dates now base mine theirs).row.register
                (normalSerial was.serialHex, orElse was.useCase (useCaseOf slot))
  /-- A certificate goes only from a record that eight others of its slot outdo. -/
  trimmed :
    ∀ record ∈ (mergeWhole collate time dates now base mine theirs).row.register,
      (∃ one ∈ copies dates base mine theirs,
        Current dates now one ∧ one.key = record.key ∧ one.HasCertificate) →
        ¬ record.HasCertificate →
          Outnumbered collate (mergeWhole collate time dates now base mine theirs).row.register
            record
  /-- Where the copies of a record expire together, merging again changes no serial. -/
  serials :
    ExpireTogether dates now (copies dates base mine theirs) →
      ∀ again,
        AgainFrom base (mergeWhole collate time dates now base mine theirs).row again →
          keysOfRegister
              (mergeWhole collate time dates now again mine
                (mergeWhole collate time dates now base mine theirs).row).row.register =
            keysOfRegister (mergeWhole collate time dates now base mine theirs).row.register
  /-- Where they agree on slot and issue time too, it changes none that is published. -/
  published :
    CopiesAgree dates now (copies dates base mine theirs) →
      ∀ again,
        AgainFrom base (mergeWhole collate time dates now base mine theirs).row again →
          ∀ key,
            Publishing
                (mergeWhole collate time dates now again mine
                  (mergeWhole collate time dates now base mine theirs).row).row.register
                key ↔
              Publishing (mergeWhole collate time dates now base mine theirs).row.register key

theorem oneRecord_of_mem_copies {base mine theirs : WholeRow} {one : Issued}
    (isCopy : one ∈ copies dates base mine theirs) (current : Current dates now one) :
    OneRecord (mergeWhole collate time dates now base mine theirs).row.register one.key := by
  rw [register_mergeWhole]
  apply oneRecord_of_mem_keys
  · rw [keys_trimPublished]
    exact nodup_unionIssued _
  · rw [keys_trimPublished]
    exact mem_keys_addAll [] isCopy current

/-- The issued register of a merged row. -/
theorem register_kept (collate : String → κ) (time : String → Int)
    (dates : Dates) (now : Int) (base mine theirs : WholeRow) :
    RegisterKept collate time dates now base mine theirs where
  held := by
    intro one isHeld current
    refine oneRecord_of_mem_copies ?_ current
    rw [copies, ← append_assoc]
    exact mem_append_left _ isHeld
  displaced := by
    intro slot was changed isHeld hasSerial unexpired
    have isCopy : displacedRecord dates slot was ∈ copies dates base mine theirs :=
      displacedRecord_mem_copies changed isHeld hasSerial
    have current : Current dates now (displacedRecord dates slot was) := ⟨hasSerial, unexpired⟩
    have oneRecord := @oneRecord_of_mem_copies κ _ collate time _ _ _ _ _ _ isCopy current
    rwa [key_displacedRecord] at oneRecord
  trimmed := by
    rintro record isRecord ⟨one, isCopy, current, sameKey, hasCertificate⟩ lacks
    rw [register_mergeWhole] at isRecord ⊢
    refine outnumbered_of_trimmed (nodup_unionIssued _) isRecord ?_ lacks
    rw [← sameKey]
    exact publishes_addAll [] isCopy current hasCertificate
  serials := by
    intro expire again isAgain
    obtain ⟨twice, isTwice, isRegister⟩ := register_again isAgain
    rw [isRegister, register_mergeWhole]
    exact serials_again expire isTwice
  published := by
    intro agree again isAgain key
    obtain ⟨twice, isTwice, isRegister⟩ := register_again isAgain
    rw [isRegister, register_mergeWhole]
    exact published_again agree isTwice key

end

/-! ## A slot under two names -/

/-- The trimmed register where its published records stand newest first. -/
theorem trimPublished_of_sorted {κ : Type} [LinearOrder κ] {collate : String → κ}
    {register : List Issued}
    (sorted :
      (register.zipIdx.filter fun entry => entry.1.HasCertificate).Pairwise
        fun first second => collate second.1.issuedAt ≤ collate first.1.issuedAt) :
    trimPublished collate register =
      register.zipIdx.map fun entry =>
        if entry.2 ∈
            (GroupLimit.surplus (fun entry : Issued × Nat => entry.1.identifier) publishedPerSlot
              [] (register.zipIdx.filter fun entry => entry.1.HasCertificate)).map Prod.snd then
          entry.1.trimmed
        else
          entry.1 := by
  have order :
      publishedOrder collate register =
        register.zipIdx.filter fun entry => entry.1.HasCertificate := by
    refine mergeSort_of_pairwise (sorted.imp ?_)
    intro first second newer
    exact decide_eq_true newer
  rw [trimPublished, strip, order]

/-- A clock before the one date there is. -/
def earlyDates : Dates where
  time := fun _ => some 1800000000000
  iso := fun _ => "2026-09-01T00:00:00.000Z"
  wall := 1790000000000

/-- A certificate displaced from a slot on a day of September, as the register keeps it. -/
def publishedOn (identifier day : String) : Issued where
  serialHex := "0a" ++ day
  useCase := "jose"
  notAfter := "2027-01-15T08:00:00.000Z"
  issuedAt := "2026-09-0" ++ day ++ "T00:00:00.000Z"
  identifier := identifier
  subject := "CN=token signing"
  subjectKind := "displaced"
  purpose := "displaced:" ++ identifier
  certificatePem := "PEM " ++ day
  thumbprint := "ab" ++ day
  chainPem := []
  slot := "RS256"
  details := ""

/-- A row whose register holds these. -/
def issuedRow (register : List Issued) : WholeRow where
  row := Row.empty
  certs := none
  issuedKeyPairs := some register

/-- The days of eight certificates, the newest first. -/
def laterDays : List String := ["9", "8", "7", "6", "5", "4", "3", "2"]

/-- Nine published certificates of one slot. -/
def crowdedRow : WholeRow := issuedRow ((laterDays ++ ["1"]).map (publishedOn "jose:RS256"))

/-- The oldest of them, kept under the name that the slot has with its key's id. -/
def otherNameRow : WholeRow := issuedRow [publishedOn "jose:RS256@k1" "1"]

/-- What merging the oldest of the nine into a row writes. -/
def crowdedMerge (theirs : WholeRow) : WholeRow :=
  (mergeWhole (id : String → String) isoTime earlyDates 1790000000000 (issuedRow [])
    otherNameRow theirs).row

/-- The slot has one certificate too many, and the oldest is trimmed. -/
theorem register_crowdedMerge :
    (crowdedMerge crowdedRow).register =
      laterDays.map (publishedOn "jose:RS256") ++ [(publishedOn "jose:RS256" "1").trimmed] := by
  rw [crowdedMerge, register_mergeWhole, mergedRegister,
    trimPublished_of_sorted (by decide +kernel)]
  decide +kernel

/-- Merged again, the copy takes the place of the trimmed record. -/
theorem register_crowdedMerge_again :
    (crowdedMerge (crowdedMerge crowdedRow)).register =
      laterDays.map (publishedOn "jose:RS256") ++ [publishedOn "jose:RS256@k1" "1"] := by
  rw [crowdedMerge, register_mergeWhole, copies, register_crowdedMerge, mergedRegister,
    trimPublished_of_sorted (by decide +kernel)]
  decide +kernel

/-- Merging the result again with the same copy can publish a certificate again. -/
theorem published_again_under_other_name :
    ¬ Publishing (crowdedMerge crowdedRow).register ("a1", "jose") ∧
      Publishing (crowdedMerge (crowdedMerge crowdedRow)).register ("a1", "jose") := by
  rw [register_crowdedMerge, register_crowdedMerge_again]
  constructor
  · unfold Publishing
    decide +kernel
  · exact ⟨publishedOn "jose:RS256@k1" "1", by decide +kernel, by decide +kernel,
      by decide +kernel⟩

end IyaSts.PkiMerge
