import Mathlib.Data.Set.Lattice

namespace IyaSts.ThreeWay

/-!
# The three-way merge of sets

Two changes of one base: the merge keeps what theirs holds, takes out what
mine took out of the base and puts in what mine put into it.
-/

variable {α : Type u}

/-- What a change took out of its base. -/
def removed (base mine : Set α) : Set α := base \ mine

/-- What a change put into its base. -/
def added (base mine : Set α) : Set α := mine \ base

/-- Theirs, minus what mine removed from the base, plus what mine added to it. -/
def threeWay (base mine theirs : Set α) : Set α := (theirs \ removed base mine) ∪ added base mine

/-- A side that changed nothing leaves theirs as it is. -/
theorem threeWay_of_mine_unchanged (base theirs : Set α) : threeWay base base theirs = theirs := by
  simp [threeWay, removed, added]

variable (base mine : Set α)

/-- Against an unchanged base the merge is mine. -/
theorem threeWay_of_theirs_unchanged : threeWay base mine base = mine := by
  ext value
  by_cases inBase : value ∈ base <;> simp [threeWay, removed, added, inBase]

/-- Two equal changes merge to either of them. -/
theorem threeWay_of_equal : threeWay base mine mine = mine := by
  ext value
  by_cases inBase : value ∈ base <;> by_cases inMine : value ∈ mine <;>
    simp [threeWay, removed, added, inBase, inMine]

/-- The base, minus what any change removed, plus what any change added. -/
def mergedAll (base : Set α) (mines : List (Set α)) : Set α :=
  (base \ {value | ∃ mine ∈ mines, value ∈ removed base mine}) ∪
    {value | ∃ mine ∈ mines, value ∈ added base mine}

/-- No change leaves the base. -/
theorem mergedAll_nil : mergedAll base [] = base := by simp [mergedAll]

/--
One more change merges into what the changes before it left.  A value of the
base is only ever removed and a value outside it only ever added, so the
changes do not undo each other.
-/
theorem mergedAll_concat (mines : List (Set α)) (mine : Set α) :
    mergedAll base (mines ++ [mine]) = threeWay base mine (mergedAll base mines) := by
  ext value
  by_cases inBase : value ∈ base <;> by_cases inMine : value ∈ mine <;>
    simp [mergedAll, threeWay, removed, added, inBase, inMine, or_and_right, exists_or]

/-- The order of the changes does not matter. -/
theorem mergedAll_perm {mines others : List (Set α)} (sameChanges : mines.Perm others) :
    mergedAll base mines = mergedAll base others := by
  simp only [mergedAll, sameChanges.mem_iff]

end IyaSts.ThreeWay
