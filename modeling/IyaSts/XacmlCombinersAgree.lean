import IyaSts.XacmlCombining

namespace IyaSts.Xacml

open DemandWalk

/-!
# The two engines register the same algorithms

Identifier by identifier, what the Rust engine runs matches what the JavaScript
engine runs.  The two tables differ in two places only: the JavaScript table
has an entry for only-one-applicable, and it answers to the names every
JavaScript object inherits.
-/

open List

namespace Combiner

/-- Walks with no flags match when they stop and settle alike. -/
def unlessOtherMatch (wins otherwise : Decision) :
    Walk.Matches
      (Node.unlessOther wins otherwise)
      (Rust.unlessOther wins otherwise) where
  Related := fun _ _ => True
  start := trivial
  stop answer := by
    simp only [Node.unlessOther, Rust.unlessOther, stopAt]
    split
    · next isWins => rw [isWins]
    · rfl
  note _ _ _ _ := trivial
  settle _ _ _ := rfl

def firstApplicableMatch : Walk.Matches Node.firstApplicable Rust.firstApplicable where
  Related := fun _ _ => True
  start := trivial
  stop answer := by cases answer <;> rfl
  note _ _ _ _ := trivial
  settle _ _ _ := rfl

/-- What the flags of the two legacy rule versions have in common. -/
def SameRuleFlags (flags : Node.LegacyRuleFlags) (flags' : Rust.LegacyRuleFlags) : Prop :=
  flags.error = flags'.error ∧ flags.potential = flags'.potential ∧ flags.other = flags'.sawOther

def legacyRuleDenyMatch :
    Walk.Matches
      Node.legacyRuleDenyOverrides
      (Rust.legacyRuleOverrides .deny) where
  Related := SameRuleFlags
  start := ⟨rfl, rfl, rfl⟩
  stop answer := by cases answer <;> rfl
  note := by
    rintro ⟨_, _, _⟩ ⟨_, _, _⟩ answer ⟨rfl, rfl, rfl⟩
    cases answer <;>
      simp [SameRuleFlags, Node.legacyRuleDenyOverrides, Node.legacyRuleOverrides,
        Rust.legacyRuleOverrides, Decision.isIndeterminate]
  settle := by
    rintro ⟨_, _, _⟩ ⟨_, _, _⟩ ⟨rfl, rfl, rfl⟩
    rfl

def legacyRulePermitMatch :
    Walk.Matches
      Node.legacyRulePermitOverrides
      (Rust.legacyRuleOverrides .permit) where
  Related := SameRuleFlags
  start := ⟨rfl, rfl, rfl⟩
  stop answer := by cases answer <;> rfl
  note := by
    rintro ⟨_, _, _⟩ ⟨_, _, _⟩ answer ⟨rfl, rfl, rfl⟩
    cases answer <;>
      simp [SameRuleFlags, Node.legacyRulePermitOverrides, Node.legacyRuleOverrides,
        Rust.legacyRuleOverrides, Decision.isIndeterminate]
  settle := by
    rintro ⟨_, _, _⟩ ⟨_, _, _⟩ ⟨rfl, rfl, rfl⟩
    rfl

/-- What the flags of the two legacy policy versions have in common. -/
def SamePolicyFlags (flags : Node.LegacyPolicyFlags) (flags' : Rust.LegacyPolicyFlags) : Prop :=
  flags.error = flags'.error ∧ flags.other = flags'.sawOther

def legacyPolicyDenyMatch :
    Walk.Matches
      Node.legacyPolicyDenyOverrides
      (Rust.legacyPolicyOverrides .deny) where
  Related := SamePolicyFlags
  start := ⟨rfl, rfl⟩
  stop answer := by cases answer <;> rfl
  note := by
    rintro ⟨_, _⟩ ⟨_, _⟩ answer ⟨rfl, rfl⟩
    cases answer <;> exact ⟨rfl, rfl⟩
  settle := by
    rintro ⟨_, _⟩ ⟨_, _⟩ ⟨rfl, rfl⟩
    rfl

def legacyPolicyPermitMatch :
    Walk.Matches
      Node.legacyPolicyPermitOverrides
      (Rust.legacyPolicyOverrides .permit) where
  Related := SamePolicyFlags
  start := ⟨rfl, rfl⟩
  stop answer := by cases answer <;> rfl
  note := by
    rintro ⟨_, _⟩ ⟨_, _⟩ answer ⟨rfl, rfl⟩
    cases answer <;> exact ⟨rfl, rfl⟩
  settle := by
    rintro ⟨_, _⟩ ⟨_, _⟩ ⟨rfl, rfl⟩
    rfl

end Combiner

/-- One identifier, registered for matching walks in the two tables. -/
def SameEntry (entry : String × Node.Registered) (entry' : String × Combiner) : Prop :=
  entry.1 = entry'.1 ∧
    ∃ implementation,
      entry.2 = .combiner implementation ∧ Nonempty (Walk.Matches implementation entry'.2)

/-- Registering matching walks under the same identifiers gives the same entries. -/
theorem register_same (uris : List String) {first second : Combiner}
    (matching : Walk.Matches first second) :
    List.Forall₂ SameEntry (Node.register uris first) (Rust.add uris second) := by
  induction uris with
  | nil => exact .nil
  | cons uri rest ih => exact .cons ⟨rfl, first, rfl, ⟨matching⟩⟩ ih

/-- Up to the only-one-applicable entry the tables hold the same entries. -/
theorem combiners_same :
    ∃ walks,
      Node.combiners =
          walks ++ [(PolicyAlg.onlyOneApplicable, .onlyOneApplicable)] ∧
        List.Forall₂ SameEntry walks Rust.combiners := by
  refine ⟨_, rfl, ?_⟩
  unfold Rust.combiners
  repeat' apply rel_append
  · exact register_same _ Combiner.denyOverridesMatch
  · exact register_same _ Combiner.permitOverridesMatch
  · exact register_same _ (Combiner.unlessOtherMatch .permit .deny)
  · exact register_same _ (Combiner.unlessOtherMatch .deny .permit)
  · exact register_same _ Combiner.firstApplicableMatch
  · exact register_same _ Combiner.legacyRuleDenyMatch
  · exact register_same _ Combiner.legacyRulePermitMatch
  · exact register_same _ Combiner.legacyPolicyDenyMatch
  · exact register_same _ Combiner.legacyPolicyPermitMatch

/-- Looking an identifier up in two tables of the same entries. -/
theorem lookup_same {walks : List (String × Node.Registered)}
    {walks' : List (String × Combiner)} (same : List.Forall₂ SameEntry walks walks')
    (uri : String) :
    match walks'.lookup uri with
    | some second =>
      ∃ first, walks.lookup uri = some (.combiner first) ∧ Nonempty (Walk.Matches first second)
    | none => walks.lookup uri = none := by
  induction same with
  | nil => rfl
  | @cons entry entry' rest rest' sameEntry _ ih =>
    obtain ⟨name, registered⟩ := entry
    obtain ⟨name', second⟩ := entry'
    obtain ⟨sameName, first, isCombiner, matching⟩ := sameEntry
    simp only at sameName isCombiner matching
    subst sameName isCombiner
    by_cases isName : uri = name
    · subst isName
      simpa using matching
    · have notName : (uri == name) = false := by
        simpa using isName
      simpa only [lookup_cons, notName] using ih

/-- What the two engines find under one identifier. -/
inductive Lookups (uri : String) : Prop where
  | both
      (first second : Combiner)
      (node : Node.lookupCombiner uri = .own (.combiner first))
      (rust : Rust.get uri = some second)
      (matching : Nonempty (Walk.Matches first second))
  | onlyOne
      (isOnlyOne : uri = PolicyAlg.onlyOneApplicable)
      (node : Node.lookupCombiner uri = .own .onlyOneApplicable)
      (rust : Rust.get uri = none)
  | inherited
      (isInherited : JsObject.Inherited uri)
      (node : Node.lookupCombiner uri = .inherited)
      (rust : Rust.get uri = none)
  | neither (node : Node.lookupCombiner uri = .absent) (rust : Rust.get uri = none)

variable (uri : String)

/-- Every identifier falls into one of the four cases. -/
theorem lookups : Lookups uri := by
  obtain ⟨walks, combinersShape, same⟩ := combiners_same
  have found := lookup_same same uri
  cases rust : Rust.get uri with
  | some second =>
    rw [show Rust.combiners.lookup uri = some second from rust] at found
    obtain ⟨first, looked, matching⟩ := found
    refine .both first second ?_ rust matching
    simp [Node.lookupCombiner, JsObject.read, combinersShape, lookup_append, looked]
  | none =>
    rw [show Rust.combiners.lookup uri = none from rust] at found
    by_cases isOnlyOne : uri = PolicyAlg.onlyOneApplicable
    · subst isOnlyOne
      refine .onlyOne rfl ?_ rust
      simp [Node.lookupCombiner, JsObject.read, combinersShape, lookup_append, found]
    · have notOnlyOne : (uri == PolicyAlg.onlyOneApplicable) = false := by
        simpa using isOnlyOne
      have nodeRead :
          Node.lookupCombiner uri =
            if JsObject.Inherited uri then .inherited else .absent := by
        simp [Node.lookupCombiner, JsObject.read, combinersShape,
          lookup_append, found, lookup_cons, notOnlyOne]
      by_cases isInherited : JsObject.Inherited uri
      · exact .inherited isInherited (by simp [nodeRead, isInherited]) rust
      · exact .neither (by simp [nodeRead, isInherited]) rust

/-- Both engines combine decided children alike, wherever either does. -/
theorem combinerFor_agree (decisions : List Decision) :
    (Engine.node.combinerFor uri).map (·.combine decisions) =
    (Engine.rust.combinerFor uri).map (·.combine decisions) := by
  cases lookups uri with
  | both first second node rust matching =>
    obtain ⟨matching⟩ := matching
    simp only [Engine.combinerFor, node, rust, Option.map_some, Combiner.combine_eq]
    rw [matching.settleAll_eq matching.start]
  | onlyOne _ node rust => simp [Engine.combinerFor, node, rust]
  | inherited _ node rust => simp [Engine.combinerFor, node, rust]
  | neither node rust => simp [Engine.combinerFor, node, rust]

end IyaSts.Xacml
