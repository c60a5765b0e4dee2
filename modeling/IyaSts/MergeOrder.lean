import Mathlib.Data.List.Basic

namespace IyaSts.MergeOrder

/-!
# Merging in any order

A merge is a relation: what is held, what is merged into it and what comes of it;
where nothing does, it is refused.  Merges that can be exchanged two by two come to
the same in every order.  They still can be where they are made of several beside
each other, where something may be missing, and where the outcome is checked by what
a later merge does not mend.
-/

universe u v w

/-- What may come of two merges comes of them exchanged. -/
def Exchanges {State : Type u} {Input : Type v} (Merges : State → Input → State → Prop) : Prop :=
  ∀ ⦃held first between second after⦄,
    Merges held first between → Merges between second after →
      ∃ other, Merges held second other ∧ Merges other first after

/-- It does not matter which of two is merged into the other. -/
def Commutes {Value : Type u} (Merges : Value → Value → Value → Prop) : Prop :=
  ∀ ⦃first second after⦄, Merges first second after → Merges second first after

/-- One thing comes of a merge. -/
def Determined {State : Type u} {Input : Type v} (Merges : State → Input → State → Prop) : Prop :=
  ∀ ⦃held input after after'⦄, Merges held input after → Merges held input after' → after = after'

/-! ## One after the other -/

section Runs

variable {State : Type u} {Input : Type v}
  {Merges : State → Input → State → Prop}

/-- A list merged from its start on. -/
inductive Runs (Merges : State → Input → State → Prop) :
    State → List Input → State → Prop
  | nil (held : State) : Runs Merges held [] held
  | cons
      {held between after : State}
      {input : Input}
      {rest : List Input}
      (first : Merges held input between)
      (later : Runs Merges between rest after) :
      Runs Merges held (input :: rest) after

/-- The order of the list does not matter. -/
theorem Runs.perm (exchanges : Exchanges Merges) {inputs inputs' : List Input}
    (perm : inputs.Perm inputs') {held after : State} (runs : Runs Merges held inputs after) :
    Runs Merges held inputs' after := by
  induction perm generalizing held with
  | nil => exact runs
  | cons input _ ih =>
    cases runs with
    | cons first later => exact .cons first (ih later)
  | swap second first rest =>
    cases runs with
    | cons merged later =>
      cases later with
      | cons merged' later =>
        obtain ⟨other, before, behind⟩ := exchanges merged merged'
        exact .cons before (.cons behind later)
  | trans _ _ firstHypothesis secondHypothesis => exact secondHypothesis (firstHypothesis runs)


end Runs

/-! ## Several beside each other -/

section Beside

variable {Place : Type u} {State : Place → Type v} {Input : Place → Type w}

/-- A merge at every place. -/
def Beside (Merges : ∀ place, State place → Input place → State place → Prop)
    (held : ∀ place, State place) (input : ∀ place, Input place) (after : ∀ place, State place) :
    Prop :=
  ∀ place, Merges place (held place) (input place) (after place)

theorem Exchanges.beside {Merges : ∀ place, State place → Input place → State place → Prop}
    (exchanges : ∀ place, Exchanges (Merges place)) :
    Exchanges (Beside Merges) := by
  intro held first between second after merged merged'
  choose other before behind using fun place => exchanges place (merged place) (merged' place)
  exact ⟨other, before, behind⟩

theorem Determined.beside {Merges : ∀ place, State place → Input place → State place → Prop}
    (determined : ∀ place, Determined (Merges place)) :
    Determined (Beside Merges) :=
  fun _ _ _ _ merged merged' => funext fun place => determined place (merged place) (merged' place)

end Beside

theorem Commutes.beside {Place : Type u} {Value : Place → Type v}
    {Merges : ∀ place, Value place → Value place → Value place → Prop}
    (commutes : ∀ place, Commutes (Merges place)) :
    Commutes (Beside Merges) :=
  fun _ _ _ merged place => commutes place (merged place)

/-! ## Where something may be missing -/

section Missing

variable {Value : Type u} {Merges : Value → Value → Value → Prop}

/-- What only one side has is taken as it is. -/
def OrTaken (Merges : Value → Value → Value → Prop) :
    Option Value → Option Value → Option Value → Prop
  | none, input, after => after = input
  | some held, none, after => after = some held
  | some held, some input, after => ∃ merged, Merges held input merged ∧ after = some merged

theorem Exchanges.orTaken (commutes : Commutes Merges) (exchanges : Exchanges Merges) :
    Exchanges (OrTaken Merges) := by
  intro held first between second after merged merged'
  cases held with
  | none =>
    obtain rfl : between = first := merged
    cases between with
    | none =>
      obtain rfl : after = second := merged'
      refine ⟨after, rfl, ?_⟩
      cases after <;> rfl
    | some first =>
      refine ⟨second, rfl, ?_⟩
      cases second with
      | none => exact merged'
      | some second =>
        obtain ⟨value, merged, rfl⟩ := merged'
        exact ⟨value, commutes merged, rfl⟩
  | some held =>
    cases first with
    | none =>
      obtain rfl : between = some held := merged
      refine ⟨after, merged', ?_⟩
      cases second with
      | none =>
        obtain rfl : after = some held := merged'
        rfl
      | some second =>
        obtain ⟨value, _, rfl⟩ := merged'
        rfl
    | some first =>
      obtain ⟨value, merged, rfl⟩ := merged
      cases second with
      | none =>
        obtain rfl : after = some value := merged'
        exact ⟨some held, rfl, value, merged, rfl⟩
      | some second =>
        obtain ⟨value', merged', rfl⟩ := merged'
        obtain ⟨other, before, behind⟩ := exchanges merged merged'
        exact ⟨some other, ⟨other, before, rfl⟩, value', behind, rfl⟩

theorem Commutes.orTaken (commutes : Commutes Merges) : Commutes (OrTaken Merges) := by
  intro first second after merged
  cases first with
  | none =>
    obtain rfl : after = second := merged
    cases after <;> rfl
  | some first =>
    cases second with
    | none => exact merged
    | some second =>
      obtain ⟨value, merged, rfl⟩ := merged
      exact ⟨value, commutes merged, rfl⟩

theorem Determined.orTaken (determined : Determined Merges) : Determined (OrTaken Merges) := by
  intro held input after after' merged merged'
  cases held with
  | none => exact Eq.trans merged (Eq.symm merged')
  | some held =>
    cases input with
    | none => exact Eq.trans merged (Eq.symm merged')
    | some input =>
      obtain ⟨value, merged, rfl⟩ := merged
      obtain ⟨value', merged', rfl⟩ := merged'
      rw [determined merged merged']

/-- What is there after the merge is taken from a side or comes of both. -/
theorem OrTaken.of_some {held input : Option Value} {after : Value}
    (merged : OrTaken Merges held input (some after)) :
    held = some after ∨ input = some after ∨
      ∃ mine theirs, held = some mine ∧ input = some theirs ∧ Merges mine theirs after := by
  cases held with
  | none => exact .inr (.inl (Eq.symm merged))
  | some mine =>
    cases input with
    | none => exact .inl (Eq.symm merged)
    | some theirs =>
      obtain ⟨value, merged, isAfter⟩ := merged
      cases isAfter
      exact .inr (.inr ⟨mine, theirs, rfl, rfl, merged⟩)

/-- A merge seen through what the values mean. -/
theorem OrTaken.map {Value' : Type v} {Merges' : Value' → Value' → Value' → Prop}
    {meaning : Value → Value'} {held input after : Option Value}
    (each :
      ∀ mine theirs value,
        held = some mine → input = some theirs → after = some value →
          Merges mine theirs value → Merges' (meaning mine) (meaning theirs) (meaning value))
    (merged : OrTaken Merges held input after) :
    OrTaken Merges' (held.map meaning) (input.map meaning) (after.map meaning) := by
  cases held with
  | none => exact congrArg (Option.map meaning) merged
  | some mine =>
    cases input with
    | none => exact congrArg (Option.map meaning) merged
    | some theirs =>
      obtain ⟨value, merged, rfl⟩ := merged
      exact ⟨meaning value, each mine theirs value rfl rfl rfl merged, rfl⟩

end Missing

/-! ## Where the outcome is checked -/

section Checked

variable {Value : Type u} {Merges : Value → Value → Value → Prop}
  {Fine : Value → Prop}

/-- Only what is fine comes of the merge. -/
def Checked (Merges : Value → Value → Value → Prop) (Fine : Value → Prop)
    (held input after : Value) :
    Prop :=
  Merges held input after ∧ Fine after

theorem Exchanges.checked (exchanges : Exchanges Merges)
    (hereditary : ∀ ⦃held input after⦄, Merges held input after → Fine after → Fine held) :
    Exchanges (Checked Merges Fine) := by
  rintro held first between second after ⟨merged, -⟩ ⟨merged', isFine⟩
  obtain ⟨other, before, behind⟩ := exchanges merged merged'
  exact ⟨other, ⟨before, hereditary behind isFine⟩, behind, isFine⟩

theorem Commutes.checked (commutes : Commutes Merges) : Commutes (Checked Merges Fine) :=
  fun _ _ _ merged => ⟨commutes merged.1, merged.2⟩

theorem Determined.checked (determined : Determined Merges) : Determined (Checked Merges Fine) :=
  fun _ _ _ _ merged merged' => determined merged.1 merged'.1

end Checked

end IyaSts.MergeOrder
