import IyaSts.Utf8
import Mathlib.Data.List.Basic

namespace IyaSts.VcEcdsaSd

/-!
# Selective disclosure proofs, `vc_ecdsa_sd.ts`

The issuer signs each statement that is not mandatory on its own, the holder
passes on the signatures of the statements that it discloses, and the verifier
pairs them with the statements that it is shown.  A statement is a canonical
quad, relabelled, and each of the three counts the statements in a list of its
own.
-/

/-- A canonical statement, which ends in a line feed. -/
abbrev Statement := String

/-! ## The order of the statements -/

/-- `compareCodePoints`, of the code points of two statements. -/
def compareCodePoints : List Char → List Char → Int
  | x :: a, y :: b =>
    if x ≠ y then
      if x < y then -1 else 1
    else
      compareCodePoints a b
  | a, b => a.length - b.length

/-- The statements sorted by `compareCodePoints`. -/
def sortStatements (nquads : List Statement) : List Statement :=
  nquads.mergeSort fun a b => compareCodePoints a.toList b.toList ≤ 0

/-! ## Groups -/

/-- Maps of statements by their index: those selected, and the others. -/
structure Group where
  matching : List (Nat × Statement)
  nonMatching : List (Nat × Statement)
  deriving DecidableEq

/-- The statements with their indexes. -/
def indexed (nquads : List Statement) : List (Nat × Statement) :=
  nquads.zipIdx.map fun entry => (entry.2, entry.1)

/-- The group of `canonicalizeAndGroup` whose pointers select these statements. -/
def canonicalizeAndGroup (nquads selected : List Statement) : Group where
  matching := (indexed nquads).filter fun entry => entry.2 ∈ selected
  nonMatching := (indexed nquads).filter fun entry => entry.2 ∉ selected

/-- `matching.has(index)`. -/
def Group.has (group : Group) (index : Nat) : Prop := index ∈ group.matching.map Prod.fst

instance (group : Group) (index : Nat) : Decidable (group.has index) :=
  inferInstanceAs (Decidable (_ ∈ _))

/-- `Array.from(matching.values())`. -/
def Group.matches (group : Group) : List Statement := group.matching.map Prod.snd

/-- `Array.from(nonMatching.values())`. -/
def Group.others (group : Group) : List Statement := group.nonMatching.map Prod.snd

/-! ## Proofs -/

/-- What a base proof carries of its statements. -/
structure BaseProof where
  baseSignature : Buffer
  publicKey : Buffer
  signatures : List Buffer
  deriving DecidableEq

/-- What a derived proof carries of its statements. -/
structure DerivedProof where
  baseSignature : Buffer
  publicKey : Buffer
  signatures : List Buffer
  mandatoryIndexes : List Nat
  deriving DecidableEq

section

-- SHA-256, and the issuer's signature.
variable (sha256 sign : Buffer → Buffer)

-- What the proof-scoped key signs with its signature of that number.
variable (ecdsa : Nat → Buffer → Buffer)

/-- What the base signature is over. -/
def signedBytes (proofHash publicKey : Buffer) (mandatory : List Statement) : Buffer :=
  proofHash ++ publicKey ++ sha256 (Utf8.encode (String.join mandatory))

/-- `createBaseProof`, of the statements that the mandatory pointers select. -/
def createBaseProof (proofHash publicKey : Buffer)
    (nquads mandatory : List Statement) : BaseProof :=
  let grouped := canonicalizeAndGroup nquads mandatory
  { baseSignature := sign (signedBytes sha256 proofHash publicKey grouped.matches)
    publicKey := publicKey
    signatures := grouped.others.zipIdx.map fun entry => ecdsa entry.2 (Utf8.encode entry.1) }

end

/-- The indexes of the mandatory statements among those disclosed. -/
def mandatoryIndexesFrom (mandatory : Group) (relative : Nat) : List Nat → List Nat
  | [] => []
  | absolute :: rest =>
    if mandatory.has absolute then
      relative :: mandatoryIndexesFrom mandatory (relative + 1) rest
    else
      mandatoryIndexesFrom mandatory (relative + 1) rest

/-- Past an index there are fewer keys left. -/
theorem length_keys_after {keys : List Nat} {index : Nat} (isKey : index ∈ keys) :
    (keys.filter (index + 1 ≤ ·)).length < (keys.filter (index ≤ ·)).length := by
  have after : keys.filter (index + 1 ≤ ·) = (keys.filter (index ≤ ·)).filter (· ≠ index) := by
    rw [List.filter_filter]
    apply List.filter_congr
    intro key _
    simp only [← Bool.decide_and, decide_eq_decide]
    omega
  rw [after]
  exact
    List.length_filter_lt_length_iff_exists.mpr
      ⟨index, List.mem_filter.mpr ⟨isKey, by simp⟩, by simp⟩

/-- The loop that passes the mandatory statements by. -/
def skipMandatory (mandatory : Group) (index : Nat) : Nat :=
  if isMandatory : mandatory.has index then
    skipMandatory mandatory (index + 1)
  else
    index
  termination_by ((mandatory.matching.map Prod.fst).filter (index ≤ ·)).length
  decreasing_by
    exact length_keys_after isMandatory

/-- The signatures that are passed on, of those that are left from an index on. -/
def filteredFrom (mandatory selective : Group) (index : Nat) : List Buffer → List Buffer
  | [] => []
  | signature :: rest =>
    let index := skipMandatory mandatory index
    if selective.has index then
      signature :: filteredFrom mandatory selective (index + 1) rest
    else
      filteredFrom mandatory selective (index + 1) rest

/-- `deriveProof`, of the groups of the holder's pointers. -/
def deriveProof (base : BaseProof) (mandatory selective combined : Group) : DerivedProof where
  baseSignature := base.baseSignature
  publicKey := base.publicKey
  signatures := filteredFrom mandatory selective 0 base.signatures
  mandatoryIndexes := mandatoryIndexesFrom mandatory 0 (combined.matching.map Prod.fst)

/-! ## The verifier -/

/-- The statements that a verifier tells apart. -/
structure Shown where
  mandatory : List Statement
  nonMandatory : List Statement
  deriving DecidableEq

/-- The statements told apart by the mandatory indexes. -/
def tellApart (mandatoryIndexes : List Nat) (nquads : List Statement) : Shown where
  mandatory := (nquads.zipIdx.filter fun entry => entry.2 ∈ mandatoryIndexes).map Prod.fst
  nonMandatory := (nquads.zipIdx.filter fun entry => entry.2 ∉ mandatoryIndexes).map Prod.fst

/-- What `verifyDerivedProof` answers of a proof that it could parse. -/
inductive Verdict where
  | count (signatures statements : Nat)
  | verified (isVerified : Bool)
  deriving DecidableEq

section

variable (sha256 : Buffer → Buffer)

-- Whether a signature of the issuer's, or of the proof-scoped key, verifies.
variable (verify : Buffer → Buffer → Bool)
variable (verifyScoped : Buffer → Buffer → Buffer → Bool)

/-- `verifyDerivedProof`, of the statements of the document that is shown. -/
def verifyDerivedProof (proofHash : Buffer) (proof : DerivedProof)
    (shown : List Statement) : Verdict :=
  let told := tellApart proof.mandatoryIndexes (sortStatements shown)
  if proof.signatures.length ≠ told.nonMandatory.length then
    .count proof.signatures.length told.nonMandatory.length
  else
    .verified
      (verify (signedBytes sha256 proofHash proof.publicKey told.mandatory) proof.baseSignature &&
        (told.nonMandatory.zip proof.signatures).all fun pair =>
          verifyScoped proof.publicKey (Utf8.encode pair.1) pair.2)

end

end IyaSts.VcEcdsaSd
