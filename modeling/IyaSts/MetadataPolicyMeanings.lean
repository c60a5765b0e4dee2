import IyaSts.MetadataPolicyNames
import Mathlib.Data.Set.Basic

namespace IyaSts.MetadataPolicy

open Json JsObject MergeOrder

/-!
# What merged operators mean

An operator means its value's content, the set of its values or its truth.  Meanings
can be merged in any order, and what may not be combined stays so whatever is merged
into it.
-/

/-! ## Meanings and their rules -/

/-- What an operator says, arrays up to their order. -/
inductive Meaning where
  | said (content : Content)
  | values (all : Set Content)
  | flag (isTrue : Bool)

/-- What an operator of some value means. -/
def meaningOf (op : String) (v : Json) : Meaning :=
  if op = "value" ∨ op = "default" then
    .said v.content
  else if op = "essential" then
    .flag (strictEqual v (.boolean true))
  else
    .values {content | content ∈ valuesOf v}

/-- The rule of an operator on arrays: their union, or their intersection, of which
`one_of` leaves something. -/
def ValuesMerge (op : String) (a b c : Set Content) : Prop :=
  if op = "add" ∨ op = "superset_of" then
    c = a ∪ b
  else
    c = a ∩ b ∧ (op = "one_of" → c.Nonempty)

/-- An operator's rule: equal contents, the rule of arrays, or either's truth. -/
def RuleMerge (op : String) : Meaning → Meaning → Meaning → Prop
  | .said a, .said b, .said c => a = b ∧ c = a
  | .flag a, .flag b, .flag c => c = (a || b)
  | .values a, .values b, .values c => ValuesMerge op a b c
  | _, _, _ => False

/-- What the operators of a parameter mean. -/
abbrev Meanings := String → Option Meaning

def meanings (ops : Members) : Meanings := fun op => (ops.lookup op).map (meaningOf op)

/-- The meanings of a parameter merged, by operator. -/
def MeaningsMerge : Meanings → Meanings → Meanings → Prop := Beside fun op => OrTaken (RuleMerge op)

theorem valuesMerge_commutes (op : String) : Commutes (ValuesMerge op) := by
  intro first second after merged
  unfold ValuesMerge at merged ⊢
  rw [Set.union_comm, Set.inter_comm]
  exact merged

theorem valuesMerge_determined (op : String) : Determined (ValuesMerge op) := by
  intro held input after after' merged merged'
  unfold ValuesMerge at merged merged'
  by_cases isUnion : op = "add" ∨ op = "superset_of"
  · rw [if_pos isUnion] at merged merged'
    rw [merged, merged']
  · rw [if_neg isUnion] at merged merged'
    rw [merged.1, merged'.1]

theorem valuesMerge_exchanges (op : String) : Exchanges (ValuesMerge op) := by
  intro held first between second after merged merged'
  unfold ValuesMerge at merged merged' ⊢
  by_cases isUnion : op = "add" ∨ op = "superset_of"
  · rw [if_pos isUnion] at merged merged'
    simp only [if_pos isUnion]
    exact ⟨held ∪ second, rfl, by rw [merged', merged, Set.union_right_comm]⟩
  · rw [if_neg isUnion] at merged merged'
    simp only [if_neg isUnion]
    obtain ⟨rfl, -⟩ := merged
    obtain ⟨rfl, nonempty⟩ := merged'
    refine ⟨held ∩ second, ⟨rfl, fun isOneOf => ?_⟩, ?_, nonempty⟩
    · -- What is left of all three is left of two.
      obtain ⟨content, ⟨isHeld, -⟩, isSecond⟩ := nonempty isOneOf
      exact ⟨content, isHeld, isSecond⟩
    · exact Set.inter_right_comm held first second

theorem ruleMerge_commutes (op : String) : Commutes (RuleMerge op) := by
  intro first second after merged
  cases first <;> cases second <;> cases after <;> try exact merged.elim
  · obtain ⟨rfl, rfl⟩ := merged
    exact ⟨rfl, rfl⟩
  · exact valuesMerge_commutes op merged
  · exact Eq.trans merged (Bool.or_comm _ _)

theorem ruleMerge_determined (op : String) : Determined (RuleMerge op) := by
  intro held input after after' merged merged'
  cases held <;> cases input <;> cases after <;> try exact merged.elim
  all_goals cases after' <;> try exact merged'.elim
  · rw [merged.2, merged'.2]
  · rw [valuesMerge_determined op merged merged']
  · rw [show _ = _ from merged, show _ = _ from merged']

theorem ruleMerge_exchanges (op : String) : Exchanges (RuleMerge op) := by
  intro held first between second after merged merged'
  cases held <;> cases first <;> cases between <;> try exact merged.elim
  all_goals cases second <;> cases after <;> try exact merged'.elim
  · obtain ⟨rfl, rfl⟩ := merged
    obtain ⟨rfl, rfl⟩ := merged'
    exact ⟨.said _, ⟨rfl, rfl⟩, rfl, rfl⟩
  · obtain ⟨other, before, behind⟩ := valuesMerge_exchanges op merged merged'
    exact ⟨.values other, before, behind⟩
  · rename_i held first between second after
    obtain rfl : between = (held || first) := merged
    obtain rfl : after = (held || first || second) := merged'
    exact ⟨.flag (held || second), rfl, Bool.or_right_comm held first second⟩

/-! ## What may be combined -/

/-- Meanings that may stand beside each other. -/
structure Fine (all : Meanings) : Prop where
  oneOfAlone :
    all "one_of" ≠ none → all "add" = none ∧ all "subset_of" = none ∧ all "superset_of" = none
  nullAlone :
    all "value" = some (.said .null) →
      all "add" = none ∧ all "default" = none ∧ all "essential" ≠ some (.flag true)
  valueAdd :
    ∀ content added, all "value" = some (.said content) → content ≠ .null →
      all "add" = some (.values added) →
        ∃ values, content = .array values ∧ added ⊆ {one | one ∈ values}
  valueOneOf :
    ∀ content among, all "value" = some (.said content) → content ≠ .null →
      all "one_of" = some (.values among) → content ∈ among
  valueSubset :
    ∀ content among, all "value" = some (.said content) → content ≠ .null →
      all "subset_of" = some (.values among) →
        ∃ values, content = .array values ∧ {one | one ∈ values} ⊆ among
  valueSuperset :
    ∀ content needed, all "value" = some (.said content) → content ≠ .null →
      all "superset_of" = some (.values needed) →
        ∃ values, content = .array values ∧ needed ⊆ {one | one ∈ values}
  addSubset :
    ∀ added among, all "add" = some (.values added) →
      all "subset_of" = some (.values among) → added ⊆ among
  supersetSubset :
    ∀ needed among, all "superset_of" = some (.values needed) →
      all "subset_of" = some (.values among) → needed ⊆ among

/-- What an operator means is still meant, its bound not wider, after a merge. -/
def Tighter (op : String) : Meaning → Meaning → Prop
  | .said a, .said c => c = a
  | .flag a, .flag c => a = true → c = true
  | .values a, .values c => if op = "add" ∨ op = "superset_of" then a ⊆ c else c ⊆ a
  | _, _ => False

variable {op : String} {held input after : Meanings} {all : Set Content}

theorem tighter_of_ruleMerge {held input after : Meaning} (merged : RuleMerge op held input after) :
    Tighter op held after := by
  cases held <;> cases input <;> cases after <;> try exact merged.elim
  · exact merged.2
  · simp only [RuleMerge, ValuesMerge] at merged
    simp only [Tighter]
    by_cases isUnion : op = "add" ∨ op = "superset_of"
    · rw [if_pos isUnion] at merged ⊢
      rw [merged]
      exact Set.subset_union_left
    · rw [if_neg isUnion] at merged ⊢
      rw [merged.1]
      exact Set.inter_subset_left
  · rename_i held input after
    obtain rfl : after = (held || input) := merged
    intro isTrue
    rw [isTrue, Bool.true_or]

/-- What is meant before a merge is meant, as tightly, after it. -/
theorem tighter_of_meaningsMerge (merged : MeaningsMerge held input after) {meant : Meaning}
    (isHeld : held op = some meant) :
    ∃ meant', after op = some meant' ∧ Tighter op meant meant' := by
  have ofOp := merged op
  simp only [isHeld] at ofOp
  cases isInput : input op with
  | none =>
    rw [isInput] at ofOp
    refine ⟨meant, ofOp, ?_⟩
    cases meant with
    | said content => rfl
    | flag isTrue => exact fun holds => holds
    | values all =>
      simp only [Tighter]
      split <;> exact fun _ holds => holds
  | some input =>
    rw [isInput] at ofOp
    obtain ⟨value, ofRule, isAfter⟩ := ofOp
    exact ⟨value, isAfter, tighter_of_ruleMerge ofRule⟩

theorem ne_none_of_meaningsMerge (merged : MeaningsMerge held input after)
    (isNone : after op = none) :
    held op = none := by
  cases isHeld : held op with
  | none => rfl
  | some meant =>
    obtain ⟨_, isAfter, _⟩ := tighter_of_meaningsMerge merged isHeld
    rw [isNone] at isAfter
    cases isAfter

theorem said_after (merged : MeaningsMerge held input after) {content : Content}
    (isHeld : held op = some (.said content)) :
    after op = some (.said content) := by
  obtain ⟨meant, isAfter, tighter⟩ := tighter_of_meaningsMerge merged isHeld
  cases meant with
  | said other =>
    obtain rfl : other = content := tighter
    exact isAfter
  | _ => exact tighter.elim

theorem flag_after (merged : MeaningsMerge held input after)
    (isHeld : held op = some (.flag true)) :
    after op = some (.flag true) := by
  obtain ⟨meant, isAfter, tighter⟩ := tighter_of_meaningsMerge merged isHeld
  cases meant with
  | flag other =>
    obtain rfl : other = true := tighter rfl
    exact isAfter
  | _ => exact tighter.elim

/-- Where values are added they are still there. -/
theorem grown_after (merged : MeaningsMerge held input after)
    (isUnion : op = "add" ∨ op = "superset_of") (isHeld : held op = some (.values all)) :
    ∃ more, after op = some (.values more) ∧ all ⊆ more := by
  obtain ⟨meant, isAfter, tighter⟩ := tighter_of_meaningsMerge merged isHeld
  cases meant with
  | values more =>
    simp only [Tighter, if_pos isUnion] at tighter
    exact ⟨more, isAfter, tighter⟩
  | _ => exact tighter.elim

/-- Where values are bounded they stay within the bound. -/
theorem shrunk_after (merged : MeaningsMerge held input after)
    (isBound : ¬ (op = "add" ∨ op = "superset_of")) (isHeld : held op = some (.values all)) :
    ∃ fewer, after op = some (.values fewer) ∧ fewer ⊆ all := by
  obtain ⟨meant, isAfter, tighter⟩ := tighter_of_meaningsMerge merged isHeld
  cases meant with
  | values fewer =>
    simp only [Tighter, if_neg isBound] at tighter
    exact ⟨fewer, isAfter, tighter⟩
  | _ => exact tighter.elim

/-- What is fine after a merge was fine before it. -/
theorem Fine.before (merged : MeaningsMerge held input after) (fine : Fine after) : Fine held := by
  have absent {op : String} : after op = none → held op = none := ne_none_of_meaningsMerge merged
  refine ⟨?_, ?_, ?_, ?_, ?_, ?_, ?_, ?_⟩
  · intro isHeld
    obtain ⟨noAdd, noSubset, noSuperset⟩ := fine.oneOfAlone (mt absent isHeld)
    exact ⟨absent noAdd, absent noSubset, absent noSuperset⟩
  · intro isNull
    obtain ⟨noAdd, noDefault, notEssential⟩ := fine.nullAlone (said_after merged isNull)
    exact
      ⟨absent noAdd, absent noDefault, fun isTrue => notEssential (flag_after merged isTrue)⟩
  · intro content added isValue notNull isAdd
    obtain ⟨more, isMore, grown⟩ := grown_after merged (.inl rfl) isAdd
    obtain ⟨values, isArray, within⟩ :=
      fine.valueAdd content more (said_after merged isValue) notNull isMore
    exact ⟨values, isArray, grown.trans within⟩
  · intro content among isValue notNull isAmong
    obtain ⟨fewer, isFewer, shrunk⟩ := shrunk_after merged (by decide) isAmong
    exact shrunk (fine.valueOneOf content fewer (said_after merged isValue) notNull isFewer)
  · intro content among isValue notNull isAmong
    obtain ⟨fewer, isFewer, shrunk⟩ := shrunk_after merged (by decide) isAmong
    obtain ⟨values, isArray, within⟩ :=
      fine.valueSubset content fewer (said_after merged isValue) notNull isFewer
    exact ⟨values, isArray, within.trans shrunk⟩
  · intro content needed isValue notNull isNeeded
    obtain ⟨more, isMore, grown⟩ := grown_after merged (.inr rfl) isNeeded
    obtain ⟨values, isArray, within⟩ :=
      fine.valueSuperset content more (said_after merged isValue) notNull isMore
    exact ⟨values, isArray, grown.trans within⟩
  · intro added among isAdd isAmong
    obtain ⟨more, isMore, grown⟩ := grown_after merged (.inl rfl) isAdd
    obtain ⟨fewer, isFewer, shrunk⟩ := shrunk_after merged (by decide) isAmong
    exact grown.trans ((fine.addSubset more fewer isMore isFewer).trans shrunk)
  · intro needed among isNeeded isAmong
    obtain ⟨more, isMore, grown⟩ := grown_after merged (.inr rfl) isNeeded
    obtain ⟨fewer, isFewer, shrunk⟩ := shrunk_after merged (by decide) isAmong
    exact grown.trans ((fine.supersetSubset more fewer isMore isFewer).trans shrunk)

/-! ## Policies of meanings -/

/-- What a parameter means, merged and checked. -/
def ParameterMeaningMerge : Meanings → Meanings → Meanings → Prop := Checked MeaningsMerge Fine

/-- What a policy means, by entity type, parameter and operator. -/
abbrev PolicyMeaning := String → Option (String → Option Meanings)

def policyMeaning (policy : Policy) : PolicyMeaning :=
  fun type => (policy.lookup type).map fun params name => (params.lookup name).map meanings

def TypeMeaningMerge :
    (String → Option Meanings) → (String → Option Meanings) → (String → Option Meanings) → Prop :=
  Beside fun _ => OrTaken ParameterMeaningMerge

def PolicyMeaningMerge : PolicyMeaning → PolicyMeaning → PolicyMeaning → Prop :=
  Beside fun _ => OrTaken TypeMeaningMerge

theorem parameterMeaningMerge_commutes : Commutes ParameterMeaningMerge :=
  Commutes.checked (Commutes.beside fun op => (ruleMerge_commutes op).orTaken)

theorem meaningsMerge_exchanges : Exchanges MeaningsMerge :=
  Exchanges.beside fun op => Exchanges.orTaken (ruleMerge_commutes op) (ruleMerge_exchanges op)

theorem meaningsMerge_determined : Determined MeaningsMerge :=
  Determined.beside fun op => (ruleMerge_determined op).orTaken

theorem typeMeaningMerge_commutes : Commutes TypeMeaningMerge :=
  Commutes.beside fun _ => parameterMeaningMerge_commutes.orTaken

/-- Policies can be merged in any order. -/
theorem policyMeaningMerge_exchanges : Exchanges PolicyMeaningMerge :=
  Exchanges.beside fun _ =>
    Exchanges.orTaken typeMeaningMerge_commutes
      (Exchanges.beside fun _ =>
        Exchanges.orTaken parameterMeaningMerge_commutes
          (Exchanges.checked meaningsMerge_exchanges fun _ _ _ => Fine.before))

theorem policyMeaningMerge_determined : Determined PolicyMeaningMerge :=
  Determined.beside fun _ =>
    Determined.orTaken
      (Determined.beside fun _ => Determined.orTaken (Determined.checked meaningsMerge_determined))

end IyaSts.MetadataPolicy
