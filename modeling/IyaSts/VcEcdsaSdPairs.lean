import IyaSts.VcEcdsaSd
import Mathlib.Data.List.Sort
import Mathlib.Data.String.Basic

namespace IyaSts.VcEcdsaSd

/-!
# A derived proof pairs each statement with its own signature

The holder counts all statements and the verifier those that it is shown.  Both
count in the same order, so each statement that is disclosed and not mandatory
meets the signature that was made over it.
-/

open List

/-! ## The order -/

theorem compareCodePoints_neg_iff (a b : List Char) : compareCodePoints a b < 0 ↔ a < b := by
  induction a generalizing b with
  | nil =>
    cases b with
    | nil => simp [compareCodePoints]
    | cons y b =>
      simp [compareCodePoints]
      omega
  | cons x a ih =>
    cases b with
    | nil =>
      simp [compareCodePoints]
      omega
    | cons y b =>
      rw [compareCodePoints, cons_lt_cons_iff]
      by_cases same : x = y
      · subst same
        simpa using ih b
      · by_cases less : x < y
        · simp [same, less]
        · simp [same, less]

theorem compareCodePoints_swap (a b : List Char) :
    compareCodePoints b a = -compareCodePoints a b := by
  induction a generalizing b with
  | nil => cases b <;> simp [compareCodePoints]
  | cons x a ih =>
    cases b with
    | nil => simp [compareCodePoints]
    | cons y b =>
      rw [compareCodePoints, compareCodePoints]
      by_cases same : x = y
      · subst same
        simpa using ih b
      · rcases lt_or_gt_of_ne same with less | greater
        · simp [same, Ne.symm same, less, not_lt_of_gt less]
        · simp [same, Ne.symm same, greater, not_lt_of_gt greater]

/-- The comparison is the order by code points. -/
theorem compareCodePoints_le_iff (a b : List Char) : compareCodePoints a b ≤ 0 ↔ a ≤ b := by
  rw [← not_lt, ← not_lt, ← compareCodePoints_neg_iff, compareCodePoints_swap]
  omega

/-- The sorted statements stand in their order. -/
theorem pairwise_sortStatements (nquads : List Statement) :
    (sortStatements nquads).Pairwise fun a b => a.toList ≤ b.toList := by
  have sorted :=
    @List.pairwise_mergeSort Statement
      (fun a b => decide (compareCodePoints a.toList b.toList ≤ 0))
      (by
        intro a b c
        simp only [decide_eq_true_eq, compareCodePoints_le_iff]
        exact le_trans)
      (by
        intro a b
        simp only [Bool.or_eq_true, decide_eq_true_eq, compareCodePoints_le_iff]
        exact le_total _ _)
      nquads
  refine sorted.imp ?_
  intro a b inOrder
  rwa [decide_eq_true_eq, compareCodePoints_le_iff] at inOrder

/-- The statements that are shown sort as they do among all of them. -/
theorem sortStatements_shown {nquads shown : List Statement} (isWanted : Statement → Bool)
    (isShown : shown.Perm (nquads.filter isWanted)) :
    sortStatements shown = (sortStatements nquads).filter isWanted := by
  refine @List.Perm.eq_of_pairwise Statement (fun a b => a.toList ≤ b.toList) _ _ ?_
    (pairwise_sortStatements shown) ((pairwise_sortStatements nquads).filter _) ?_
  · intro a b _ _ notAfter notBefore
    exact String.toList_inj.mp (le_antisymm notAfter notBefore)
  · calc
      (sortStatements shown).Perm shown := mergeSort_perm _ _
      shown.Perm (nquads.filter isWanted) := isShown
      (nquads.filter isWanted).Perm ((sortStatements nquads).filter isWanted) :=
        ((mergeSort_perm nquads _).filter _).symm

/-! ## Indexes -/

theorem mem_indexed {nquads : List Statement} {entry : Nat × Statement} :
    entry ∈ indexed nquads ↔ nquads[entry.1]? = some entry.2 := by
  rw [indexed, mem_map]
  constructor
  · rintro ⟨found, isFound, rfl⟩
    exact mem_zipIdx_iff_getElem?.mp isFound
  · intro stands
    exact ⟨(entry.2, entry.1), mem_zipIdx_iff_getElem?.mpr stands, rfl⟩

/-- A group has the indexes of the statements that are selected. -/
theorem has_iff {nquads selected : List Statement} {entry : Nat × Statement}
    (isIndexed : entry ∈ indexed nquads) :
    (canonicalizeAndGroup nquads selected).has entry.1 ↔ entry.2 ∈ selected := by
  rw [Group.has, canonicalizeAndGroup, mem_map]
  constructor
  · rintro ⟨other, isOther, sameIndex⟩
    rw [mem_filter, mem_indexed, sameIndex, mem_indexed.mp isIndexed,
      Option.some_inj] at isOther
    rw [isOther.1]
    exact of_decide_eq_true isOther.2
  · intro isSelected
    exact ⟨entry, mem_filter.mpr ⟨isIndexed, decide_eq_true isSelected⟩, rfl⟩

theorem map_indexed_filter (nquads : List Statement) (isWanted : Statement → Bool) :
    ((indexed nquads).filter fun entry => isWanted entry.2).map Prod.snd =
      nquads.filter isWanted := by
  have whole : (indexed nquads).map Prod.snd = nquads := by
    rw [indexed, map_map]
    exact zipIdx_map_fst 0 nquads
  conv_rhs => rw [← whole, filter_map]
  rfl

/-! ## The mandatory indexes -/

theorem mandatoryIndexesFrom_eq {mandatory : List Statement} {group : Group}
    {entries : List (Nat × Statement)}
    (told : ∀ entry ∈ entries, group.has entry.1 ↔ entry.2 ∈ mandatory) (relative : Nat) :
    mandatoryIndexesFrom group relative (entries.map Prod.fst) =
      (((entries.map Prod.snd).zipIdx relative).filter fun entry => entry.1 ∈ mandatory).map
        Prod.snd := by
  induction entries generalizing relative with
  | nil => rfl
  | cons entry rest ih =>
    have inRest :=
      ih (fun other isOther => told other (mem_cons_of_mem _ isOther))
        (relative + 1)
    have isTold := told entry mem_cons_self
    rw [map_cons, map_cons, zipIdx_cons, mandatoryIndexesFrom]
    by_cases isMandatory : entry.2 ∈ mandatory
    · rw [if_pos (isTold.mpr isMandatory), filter_cons_of_pos (by simpa using isMandatory),
        map_cons, inRest]
    · rw [if_neg (mt isTold.mp isMandatory), filter_cons_of_neg (by simpa using isMandatory),
        inRest]

theorem mem_marked_iff {nquads : List Statement} {isMarked : Statement → Bool}
    {entry : Statement × Nat} (isEntry : entry ∈ nquads.zipIdx) :
    entry.2 ∈ (nquads.zipIdx.filter fun entry => isMarked entry.1).map Prod.snd ↔
      isMarked entry.1 = true := by
  rw [mem_map]
  constructor
  · rintro ⟨other, isOther, sameIndex⟩
    rw [mem_filter, mem_zipIdx_iff_getElem?, sameIndex,
      mem_zipIdx_iff_getElem?.mp isEntry, Option.some_inj] at isOther
    rw [isOther.1]
    exact isOther.2
  · intro marked
    exact ⟨entry, mem_filter.mpr ⟨isEntry, marked⟩, rfl⟩

/-- Statements are told apart by the indexes of those that are marked. -/
theorem tellApart_marked (nquads : List Statement) (isMarked : Statement → Bool) :
    tellApart ((nquads.zipIdx.filter fun entry => isMarked entry.1).map Prod.snd) nquads =
      { mandatory := nquads.filter isMarked
        nonMandatory := nquads.filter fun nq => !isMarked nq } := by
  have whole := zipIdx_map_fst 0 nquads
  rw [tellApart, Shown.mk.injEq]
  constructor
  · conv_rhs => rw [← whole, filter_map]
    congr 1
    apply filter_congr
    intro entry isEntry
    simp only [mem_marked_iff isEntry, Bool.decide_eq_true, Function.comp_apply]
  · conv_rhs => rw [← whole, filter_map]
    congr 1
    apply filter_congr
    intro entry isEntry
    simp only [mem_marked_iff isEntry, Bool.decide_eq_true, decide_not, Function.comp_apply]

/-! ## The signatures passed on -/

theorem skipMandatory_eq {mandatory : Group} {index start : Nat} (notPast : index ≤ start)
    (passed : ∀ between, index ≤ between → between < start → mandatory.has between)
    (notMandatory : ¬ mandatory.has start) :
    skipMandatory mandatory index = start := by
  rw [skipMandatory]
  by_cases isStart : index = start
  · rw [isStart, dif_neg notMandatory]
  · have isBefore : index < start := Nat.lt_of_le_of_ne notPast isStart
    rw [dif_pos (passed index (Nat.le_refl _) isBefore)]
    exact
      skipMandatory_eq isBefore
        (fun between notBefore => passed between (Nat.le_of_succ_le notBefore)) notMandatory
  termination_by start - index

/--
From an index that only mandatory statements separate from the statements left,
each signature meets its own statement.
-/
theorem filteredFrom_eq {mandatoryGroup selectiveGroup : Group}
    {mandatory selective left : List Statement} {index start : Nat} {signatures : List Buffer}
    (mandatoryTold : ∀ i nq, left[i]? = some nq → (mandatoryGroup.has (start + i) ↔ nq ∈ mandatory))
    (selectiveTold : ∀ i nq, left[i]? = some nq → (selectiveGroup.has (start + i) ↔ nq ∈ selective))
    (notPast : index ≤ start)
    (passed : ∀ between, index ≤ between → between < start → mandatoryGroup.has between)
    (sameLength : signatures.length = (left.filter (· ∉ mandatory)).length) :
    filteredFrom mandatoryGroup selectiveGroup index signatures =
      (((left.filter (· ∉ mandatory)).zip signatures).filter fun pair =>
        pair.1 ∈ selective).map Prod.snd := by
  induction left generalizing index start signatures with
  | nil =>
    rw [length_eq_zero_iff.mp sameLength]
    rfl
  | cons nq rest ih =>
    have mandatoryLater (i : Nat) (other : Statement) (stands : rest[i]? = some other) :
        mandatoryGroup.has (start + 1 + i) ↔ other ∈ mandatory := by
      rw [Nat.add_assoc, Nat.add_comm 1]
      exact mandatoryTold (i + 1) other stands
    have selectiveLater (i : Nat) (other : Statement) (stands : rest[i]? = some other) :
        selectiveGroup.has (start + 1 + i) ↔ other ∈ selective := by
      rw [Nat.add_assoc, Nat.add_comm 1]
      exact selectiveTold (i + 1) other stands
    have mandatoryHere : mandatoryGroup.has start ↔ nq ∈ mandatory := mandatoryTold 0 nq rfl
    have selectiveHere : selectiveGroup.has start ↔ nq ∈ selective := selectiveTold 0 nq rfl
    by_cases isMandatory : nq ∈ mandatory
    · rw [filter_cons_of_neg (by simpa using isMandatory)] at sameLength ⊢
      refine ih mandatoryLater selectiveLater (by omega) ?_ sameLength
      intro between notBefore isBefore
      rcases Nat.lt_succ_iff_lt_or_eq.mp isBefore with isPassed | rfl
      · exact passed between notBefore isPassed
      · exact mandatoryHere.mpr isMandatory
    · rw [filter_cons_of_pos (by simpa using isMandatory)] at sameLength ⊢
      cases signatures with
      | nil => cases sameLength
      | cons signature signatures =>
        have inRest :=
          @ih (start + 1) (start + 1) signatures mandatoryLater selectiveLater
            (Nat.le_refl _) (by omega) (Nat.succ.inj sameLength)
        rw [filteredFrom,
          skipMandatory_eq notPast passed (mt mandatoryHere.mp isMandatory), zip_cons_cons]
        by_cases isSelected : nq ∈ selective
        · rw [if_pos (selectiveHere.mpr isSelected),
            filter_cons_of_pos (by simpa using isSelected), map_cons, inRest]
        · rw [if_neg (mt selectiveHere.mp isSelected),
            filter_cons_of_neg (by simpa using isSelected), inRest]

/-! ## Issuer, holder and verifier -/

section

variable (sha256 sign : Buffer → Buffer)
variable (ecdsa : Nat → Buffer → Buffer)

/-- The statements that are not mandatory, each with the signature over it. -/
def signedStatements (nquads mandatory : List Statement) : List (Statement × Buffer) :=
  (nquads.filter (· ∉ mandatory)).zipIdx.map fun entry =>
    (entry.1, ecdsa entry.2 (Utf8.encode entry.1))

/-- The proof that a holder derives from the issuer's over these statements. -/
def derivedFrom (proofHash publicKey : Buffer)
    (nquads mandatory selective : List Statement) : DerivedProof :=
  deriveProof (createBaseProof sha256 sign ecdsa proofHash publicKey nquads mandatory)
    (canonicalizeAndGroup nquads mandatory) (canonicalizeAndGroup nquads selective)
    (canonicalizeAndGroup nquads (mandatory ++ selective))

/-- What a verifier makes of the statements that it is shown. -/
structure PairsRight (proofHash publicKey : Buffer)
    (nquads mandatory selective shown : List Statement) : Prop where
  /-- It hashes the mandatory statements as the issuer did. -/
  hashed :
    (tellApart (derivedFrom sha256 sign ecdsa proofHash publicKey nquads mandatory
        selective).mandatoryIndexes (sortStatements shown)).mandatory =
      nquads.filter (· ∈ mandatory)
  sameCount :
    (derivedFrom sha256 sign ecdsa proofHash publicKey nquads mandatory
        selective).signatures.length =
      (tellApart (derivedFrom sha256 sign ecdsa proofHash publicKey nquads mandatory
        selective).mandatoryIndexes (sortStatements shown)).nonMandatory.length
  /-- It pairs every other statement with the signature over it, each once and in order. -/
  paired :
    (tellApart (derivedFrom sha256 sign ecdsa proofHash publicKey nquads mandatory
        selective).mandatoryIndexes (sortStatements shown)).nonMandatory.zip
        (derivedFrom sha256 sign ecdsa proofHash publicKey nquads mandatory selective).signatures =
      (signedStatements ecdsa nquads mandatory).filter fun pair => pair.1 ∈ selective

theorem others_eq (nquads selected : List Statement) :
    (canonicalizeAndGroup nquads selected).others = nquads.filter (· ∉ selected) :=
  map_indexed_filter nquads fun nq => decide (nq ∉ selected)

theorem matches_eq (nquads selected : List Statement) :
    (canonicalizeAndGroup nquads selected).matches = nquads.filter (· ∈ selected) :=
  map_indexed_filter nquads fun nq => decide (nq ∈ selected)

/-- The indexes that the holder writes mark the mandatory statements of those shown. -/
theorem mandatoryIndexes_derivedFrom (proofHash publicKey : Buffer)
    (nquads mandatory selective : List Statement) :
    (derivedFrom sha256 sign ecdsa proofHash publicKey nquads mandatory
        selective).mandatoryIndexes =
      ((nquads.filter (· ∈ mandatory ++ selective)).zipIdx.filter fun entry =>
        entry.1 ∈ mandatory).map Prod.snd := by
  rw [← matches_eq, Group.matches]
  refine mandatoryIndexesFrom_eq ?_ 0
  intro entry isCombined
  exact has_iff (mem_filter.mp isCombined).1

theorem zip_signatures (proofHash publicKey : Buffer) (nquads mandatory : List Statement) :
    (nquads.filter (· ∉ mandatory)).zip
        (createBaseProof sha256 sign ecdsa proofHash publicKey nquads mandatory).signatures =
      signedStatements ecdsa nquads mandatory := by
  rw [createBaseProof]
  dsimp only
  rw [others_eq, signedStatements]
  conv_lhs => enter [1]; rw [← zipIdx_map_fst 0 (nquads.filter (· ∉ mandatory))]
  rw [zip_map', map_inj_left]
  intro entry _
  rfl

/-- The signatures that the holder passes on are those of the statements it selects. -/
theorem signatures_derivedFrom (proofHash publicKey : Buffer)
    (nquads mandatory selective : List Statement) :
    (derivedFrom sha256 sign ecdsa proofHash publicKey nquads mandatory selective).signatures =
      ((signedStatements ecdsa nquads mandatory).filter fun pair => pair.1 ∈ selective).map
        Prod.snd := by
  rw [← zip_signatures sha256 sign ecdsa proofHash publicKey]
  have told (selected : List Statement) (i : Nat) (nq : Statement)
      (stands : nquads[i]? = some nq) :
      (canonicalizeAndGroup nquads selected).has (0 + i) ↔ nq ∈ selected := by
    rw [Nat.zero_add]
    exact @has_iff nquads selected (i, nq) (mem_indexed.mpr stands)
  refine filteredFrom_eq (told mandatory) (told selective) (Nat.le_refl 0) ?_ ?_
  · intro between _ isBefore
    cases isBefore
  · rw [createBaseProof]
    dsimp only
    rw [others_eq, length_map, length_zipIdx]

theorem map_fst_signedStatements (nquads mandatory : List Statement) :
    (signedStatements ecdsa nquads mandatory).map Prod.fst = nquads.filter (· ∉ mandatory) := by
  rw [signedStatements, map_map]
  exact zipIdx_map_fst 0 _

/-- The statements that the verifier tells apart, of those it is shown. -/
theorem tellApart_shown (proofHash publicKey : Buffer)
    {statements mandatory selective shown : List Statement}
    (isShown : shown.Perm (statements.filter fun nq => nq ∈ mandatory ++ selective)) :
    tellApart
        (derivedFrom sha256 sign ecdsa proofHash publicKey (sortStatements statements) mandatory
          selective).mandatoryIndexes (sortStatements shown) =
      { mandatory := (sortStatements statements).filter (· ∈ mandatory)
        nonMandatory :=
          ((signedStatements ecdsa (sortStatements statements) mandatory).filter fun pair =>
            pair.1 ∈ selective).map Prod.fst } := by
  have selected :
      ((signedStatements ecdsa (sortStatements statements) mandatory).filter fun pair =>
          pair.1 ∈ selective).map Prod.fst =
        ((sortStatements statements).filter (· ∉ mandatory)).filter (· ∈ selective) := by
    rw [← map_fst_signedStatements ecdsa, filter_map]
    rfl
  rw [mandatoryIndexes_derivedFrom, sortStatements_shown _ isShown,
    tellApart_marked _ fun nq => decide (nq ∈ mandatory), selected,
    Shown.mk.injEq, filter_filter, filter_filter, filter_filter]
  constructor
  · apply filter_congr
    intro nq _
    by_cases isMandatory : nq ∈ mandatory <;> simp [isMandatory]
  · apply filter_congr
    intro nq _
    by_cases isMandatory : nq ∈ mandatory <;> simp [isMandatory]

/-- What the issuer signed and the holder derived verifies. -/
theorem verified_of_shown {verify : Buffer → Buffer → Bool}
    {verifyScoped : Buffer → Buffer → Buffer → Bool} (proofHash publicKey : Buffer)
    (issuerSigns : ∀ message, verify message (sign message) = true)
    (keySigns : ∀ number message, verifyScoped publicKey message (ecdsa number message) = true)
    {statements mandatory selective shown : List Statement}
    (isShown : shown.Perm (statements.filter fun nq => nq ∈ mandatory ++ selective)) :
    verifyDerivedProof sha256 verify verifyScoped proofHash
        (derivedFrom sha256 sign ecdsa proofHash publicKey (sortStatements statements) mandatory
          selective) shown =
      .verified true := by
  have told := tellApart_shown sha256 sign ecdsa proofHash publicKey isShown
  have passed :=
    signatures_derivedFrom sha256 sign ecdsa proofHash publicKey (sortStatements statements)
      mandatory selective
  have issued :
      verify
          (signedBytes sha256 proofHash publicKey
            ((sortStatements statements).filter (· ∈ mandatory)))
          (derivedFrom sha256 sign ecdsa proofHash publicKey (sortStatements statements) mandatory
            selective).baseSignature = true := by
    rw [derivedFrom, deriveProof, createBaseProof]
    dsimp only
    rw [matches_eq]
    exact issuerSigns _
  rw [verifyDerivedProof, told, passed]
  dsimp only
  rw [length_map, length_map, if_neg (not_not.mpr rfl), Verdict.verified.injEq,
    Bool.and_eq_true]
  refine ⟨issued, ?_⟩
  rw [zip_map', all_map, all_eq_true]
  intro pair isPair
  obtain ⟨entry, _, rfl⟩ := mem_map.mp (mem_filter.mp isPair).1
  exact keySigns entry.2 (Utf8.encode entry.1)

/-- So are the two disclosed of three, each signed by itself. -/
theorem verified_of_three :
    verifyDerivedProof id (fun message signature => message == signature)
        (fun _ message signature => message == signature) []
        (derivedFrom id id (fun _ message => message) [] [] (sortStatements ["a\n", "b\n", "c\n"])
          ["b\n"] ["c\n", "b\n"])
        ["c\n", "b\n"] =
      .verified true :=
  verified_of_shown id id (fun _ message => message) [] [] (fun _ => by simp) (fun _ _ => by simp)
    (by decide +kernel)

end

end IyaSts.VcEcdsaSd
