import IyaSts.SeqAllocator
import Mathlib.Data.List.Nodup
import Mathlib.Tactic.Ring

namespace IyaSts.SeqAllocator

/-!
# What each process holds of the shared counter

The invariant of one process: its blocks are its own, its numbers are below
what is left of its blocks, and a block that is on its way is above them all.
-/

open List

/-- The store gave a process a count. -/
def Owned (counts : Key → List Nat) (key : Key) (process count : Nat) : Prop :=
  1 ≤ count ∧ (counts key)[count - 1]? = some process

/-- A lease of a stream was counted and not yet answered. -/
def Counted (leases : List Lease) (name : String) (count : Nat) : Prop :=
  ∃ lease ∈ leases, lease.stream = name ∧ lease.stage = .counted count

/-- The order in which numbers of one stream are handed out. -/
def Precedes : Number → Number → Prop
  | .caller count, .caller later => count < later
  | .leased value, .leased later => value < later
  | .leased _, .fallback _ _ => True
  | .fallback index count, .fallback index' later => index = index' ∧ count < later
  | _, _ => False

/-- What holds of a stream's blocks. -/
structure StreamSound (counts : Key → List Nat)
    (process : Nat) (name : String) (stream : Stream) (numbers : List Number)
    (leases : List Lease) : Prop where
  current :
    ∀ range, stream.current = some range →
      ∃ count, Owned counts (.block name) process count ∧
        (count - 1) * block < range.next ∧ range.next ≤ range.last + 1 ∧ range.last = count * block
  spare :
    ∀ range, stream.spare = some range →
      ∃ count, Owned counts (.block name) process count ∧ range = Instance.rangeOf count
  leased :
    ∀ value, .leased value ∈ numbers →
      ∃ count, Owned counts (.block name) process count ∧
        (count - 1) * block < value ∧ value ≤ count * block
  belowCurrent :
    ∀ range value, stream.current = some range → .leased value ∈ numbers → value < range.next
  belowSpare :
    ∀ range, stream.spare = some range →
      (∀ value, .leased value ∈ numbers → value < range.next) ∧
        ∀ range', stream.current = some range' → range'.last < range.next
  belowCounted :
    ∀ count, Counted leases name count →
      Owned counts (.block name) process count ∧
        (∀ value, .leased value ∈ numbers → value ≤ (count - 1) * block) ∧
        (∀ range, stream.current = some range → range.last ≤ (count - 1) * block) ∧
        ∀ range, stream.spare = some range → range.last ≤ (count - 1) * block
  spareAfter : stream.current = none → stream.spare = none

/-- What holds of the numbers a stream has handed out. -/
structure NumbersSound (inst : Instance) (counted : Nat) (name : String)
    (numbers : List Number) : Prop where
  caller : ∀ count, .caller count ∈ numbers → inst.shared = false ∧ count ≤ counted
  leased : ∀ value, .leased value ∈ numbers → inst.shared = true
  fallback :
    ∀ index count, .fallback index count ∈ numbers →
      inst.shared = true ∧ (inst.streams name).fallback = true ∧
        inst.originIndex = some index ∧ count < (inst.streams name).fallbackNext
  rises : numbers.Pairwise Precedes

/-- The leases that are under way at each point of `start`. -/
structure Phase (inst : Instance) : Prop where
  shared :
    inst.shared = true →
      (inst.starting = none ∨ inst.starting = some .closing) ∧
        ∀ lease ∈ inst.leases, lease.starts = false
  alone :
    inst.shared = false →
      inst.leases = [] ∨
        ∃ index rest lease,
          inst.starting = some (.chain index rest true) ∧
            inst.leases = [lease] ∧ lease.starts = true
  idle : ∀ index rest, inst.starting = some (.chain index rest false) → inst.leases = []

/-- What holds of a process. -/
structure InstanceSound (counts : Key → List Nat) (process : Nat) (inst : Instance)
    (locals : String → Nat)
    (handed : List (String × Number)) : Prop where
  streams :
    ∀ name, StreamSound counts process name (inst.streams name) (numbersOf handed name) inst.leases
  numbers : ∀ name, NumbersSound inst (locals name) name (numbersOf handed name)
  leasing : ∀ lease ∈ inst.leases, (inst.streams lease.stream).leasing = true
  distinct : (inst.leases.map Lease.stream).Nodup
  phase : Phase inst
  index :
    inst.shared = true → ∃ index, inst.originIndex = some index ∧ Owned counts .origin process index
  asked :
    ∀ index,
      (inst.starting = some (.origin (some index)) ∨
        ∃ rest waiting, inst.starting = some (.chain index rest waiting)) →
        Owned counts .origin process index

/-! ## The shared counter -/

variable {counts : Key → List Nat} {key : Key} {process count : Nat}

/-- A count belongs to one process. -/
theorem Owned.unique {process process' count : Nat}
    (owned : Owned counts key process count) (owned' : Owned counts key process' count) :
    process = process' := by
  have same := owned.2.symm.trans owned'.2
  exact Option.some_inj.mp same

/-- No count is larger than the counter. -/
theorem Owned.le_length (owned : Owned counts key process count) : count ≤ (counts key).length := by
  have isLess := (List.getElem?_eq_some_iff.mp owned.2).1
  have isPositive := owned.1
  omega

/-- The counts of the store only grow. -/
def Grows (counts counts' : Key → List Nat) : Prop := ∀ key, counts key <+: counts' key

theorem Owned.mono {counts counts' : Key → List Nat}
    (grows : Grows counts counts') (owned : Owned counts key process count) :
    Owned counts' key process count := by
  refine ⟨owned.1, ?_⟩
  obtain ⟨rest, isLonger⟩ := grows key
  rw [← isLonger]
  exact (List.getElem?_append_left (List.getElem?_eq_some_iff.mp owned.2).1).trans owned.2

variable (world : World)

/-- Counting a process gives it the next count. -/
theorem count_grows (key : Key) (process : Nat) :
    Grows world.counts (world.count key process).counts := by
  intro key'
  unfold World.count
  by_cases isKey : key' = key
  · subst isKey
    simp
  · simp [isKey]

theorem count_owned (key : Key) (process : Nat) :
    Owned (world.count key process).counts key process ((world.counts key).length + 1) := by
  refine ⟨by omega, ?_⟩
  simp [World.count]

section

variable
  {counts counts' : Key → List Nat}
  {process : Nat}
  {inst : Instance}
  {locals : String → Nat}
  {handed : List (String × Number)}

variable {name : String} {numbers : List Number}

/-- A stream stays sound as the counts grow and leases are answered. -/
theorem StreamSound.mono {stream : Stream} {leases leases' : List Lease}
    (sound : StreamSound counts process name stream numbers leases) (grows : Grows counts counts')
    (fewer : ∀ count, Counted leases' name count → Counted leases name count) :
    StreamSound counts' process name stream numbers leases' := by
  refine ⟨?_, ?_, ?_, sound.belowCurrent, sound.belowSpare, ?_, sound.spareAfter⟩
  · intro range isCurrent
    obtain ⟨count, owned, within⟩ := sound.current range isCurrent
    exact ⟨count, owned.mono grows, within⟩
  · intro range isSpare
    obtain ⟨count, owned, isRange⟩ := sound.spare range isSpare
    exact ⟨count, owned.mono grows, isRange⟩
  · intro value isLeased
    obtain ⟨count, owned, within⟩ := sound.leased value isLeased
    exact ⟨count, owned.mono grows, within⟩
  · intro count counted
    obtain ⟨owned, below⟩ := sound.belowCounted count (fewer count counted)
    exact ⟨owned.mono grows, below⟩

/-- A process stays sound as others are counted. -/
theorem InstanceSound.mono (sound : InstanceSound counts process inst locals handed)
    (grows : Grows counts counts') :
    InstanceSound counts' process inst locals handed := by
  refine ⟨?_, sound.numbers, sound.leasing, sound.distinct, sound.phase, ?_, ?_⟩
  · intro name
    exact (sound.streams name).mono grows fun _ counted => counted
  · intro isShared
    obtain ⟨index, isIndex, owned⟩ := sound.index isShared
    exact ⟨index, isIndex, owned.mono grows⟩
  · intro index isAsked
    exact (sound.asked index isAsked).mono grows

/-- Numbers stay sound where nothing they speak of changes. -/
theorem NumbersSound.congr {inst inst' : Instance} {counted : Nat}
    (sound : NumbersSound inst counted name numbers) (sameShared : inst'.shared = inst.shared)
    (sameFallback :
      (inst'.streams name).fallback = (inst.streams name).fallback)
    (sameNext :
      (inst'.streams name).fallbackNext = (inst.streams name).fallbackNext)
    (sameIndex : inst.shared = true → inst'.originIndex = inst.originIndex) :
    NumbersSound inst' counted name numbers := by
  refine ⟨?_, ?_, ?_, sound.rises⟩
  · intro count isCaller
    rw [sameShared]
    exact sound.caller count isCaller
  · intro value isLeased
    rw [sameShared]
    exact sound.leased value isLeased
  · intro index count isFallback
    obtain ⟨isShared, falls, isIndex, isLess⟩ := sound.fallback index count isFallback
    rw [sameShared, sameFallback, sameNext, sameIndex isShared]
    exact ⟨isShared, falls, isIndex, isLess⟩

end

/-- A process that has just begun. -/
theorem StreamSound.new (counts : Key → List Nat)
    (process : Nat) (name : String) {numbers : List Number}
    (none : ∀ value, .leased value ∉ numbers) :
    StreamSound counts process name Stream.new numbers [] where
  current := by
    intro range isCurrent
    cases isCurrent
  spare := by
    intro range isSpare
    cases isSpare
  leased := by
    intro value isLeased
    exact absurd isLeased (none value)
  belowCurrent := by
    intro range value isCurrent
    cases isCurrent
  belowSpare := by
    intro range isSpare
    cases isSpare
  belowCounted := by
    rintro count ⟨lease, isLease, _⟩
    cases isLease
  spareAfter := by
    intro _
    rfl

theorem InstanceSound.new (counts : Key → List Nat) (process : Nat) :
    InstanceSound counts process Instance.new (fun _ => 0) [] where
  streams := by
    intro name
    exact StreamSound.new counts process name (by simp [numbersOf])
  numbers := by
    intro name
    exact ⟨by simp [numbersOf], by simp [numbersOf], by simp [numbersOf],
      by simp [numbersOf]⟩
  leasing := by
    intro lease isLease
    cases isLease
  distinct := by simp [Instance.new]
  phase := by
    refine ⟨?_, fun _ => .inl rfl, fun _ _ _ => rfl⟩
    intro isShared
    cases isShared
  index := by
    intro isShared
    cases isShared
  asked := by rintro index (isAsked | ⟨rest, waiting, isAsked⟩) <;> cases isAsked

/-! ## Numbers that are handed out -/

/-- One more number is one of its own stream. -/
theorem numbersOf_append (handed : List (String × Number)) (name other : String) (number : Number) :
    numbersOf (handed ++ [(name, number)]) other =
      if other = name then
        numbersOf handed other ++ [number]
      else
        numbersOf handed other := by
  unfold numbersOf
  by_cases isName : other = name
  · subst isName
    simp
  · have notName : ¬ name = other := fun same => isName same.symm
    simp [isName, notName]

section

variable
  {counts counts' : Key → List Nat}
  {process : Nat}
  {inst : Instance}
  {locals : String → Nat}
  {handed : List (String × Number)}

/-- A stream stays sound as numbers are handed out that it did not lease. -/
theorem StreamSound.of_numbers {name : String} {stream : Stream}
    {numbers numbers' : List Number} {leases : List Lease}
    (sound : StreamSound counts process name stream numbers leases)
    (fewer : ∀ value, .leased value ∈ numbers' → .leased value ∈ numbers) :
    StreamSound counts process name stream numbers' leases := by
  refine ⟨sound.current, sound.spare, ?_, ?_, ?_, ?_, sound.spareAfter⟩
  · intro value isLeased
    exact sound.leased value (fewer value isLeased)
  · intro range value isCurrent isLeased
    exact sound.belowCurrent range value isCurrent (fewer value isLeased)
  · intro range isSpare
    obtain ⟨below, after⟩ := sound.belowSpare range isSpare
    exact ⟨fun value isLeased => below value (fewer value isLeased), after⟩
  · intro count counted
    obtain ⟨owned, below, rest⟩ := sound.belowCounted count counted
    exact ⟨owned, fun value isLeased => below value (fewer value isLeased), rest⟩

variable {numbers : List Number} {number : Number}

/-- Only leased numbers matter to the blocks of a stream. -/
theorem mem_append_leased (notLeased : ∀ value, number ≠ .leased value) (value : Nat)
    (isLeased : .leased value ∈ numbers ++ [number]) :
    .leased value ∈ numbers := by
  rcases mem_append.mp isLeased with isEarlier | isLast
  · exact isEarlier
  · exact absurd (mem_singleton.mp isLast).symm (notLeased value)

/-- A number that all others precede keeps the order. -/
theorem rises_append (rises : numbers.Pairwise Precedes)
    (precedes : ∀ earlier ∈ numbers, Precedes earlier number) :
    (numbers ++ [number]).Pairwise Precedes := by
  rw [pairwise_append]
  refine ⟨rises, pairwise_singleton _ _, ?_⟩
  intro earlier isEarlier last isLast
  rw [mem_singleton.mp isLast]
  exact precedes earlier isEarlier

/-- The caller's own number keeps a process sound. -/
theorem InstanceSound.caller (sound : InstanceSound counts process inst locals handed)
    (notShared : inst.shared = false) (name : String) :
    InstanceSound counts process inst
      (Function.update locals name (locals name + 1))
      (handed ++ [(name, .caller (locals name + 1))]) := by
  refine ⟨?_, ?_, sound.leasing, sound.distinct, sound.phase, sound.index, sound.asked⟩
  · intro other
    refine (sound.streams other).of_numbers ?_
    intro value isLeased
    rw [numbersOf_append] at isLeased
    split at isLeased
    · exact mem_append_leased (fun _ same => by cases same) value isLeased
    · exact isLeased
  · intro other
    rw [numbersOf_append]
    by_cases isName : other = name
    · subst isName
      have numbers := sound.numbers other
      rw [if_pos rfl, Function.update_self]
      refine ⟨?_, ?_, ?_, ?_⟩
      · intro count isCaller
        rcases mem_append.mp isCaller with isEarlier | isLast
        · exact ⟨notShared, Nat.le_succ_of_le (numbers.caller count isEarlier).2⟩
        · cases mem_singleton.mp isLast
          exact ⟨notShared, Nat.le_refl _⟩
      · intro value isLeased
        exact numbers.leased value (mem_append_leased (fun _ same => by cases same) value isLeased)
      · intro index count isFallback
        rcases mem_append.mp isFallback with isEarlier | isLast
        · exact numbers.fallback index count isEarlier
        · cases mem_singleton.mp isLast
      · refine rises_append numbers.rises ?_
        intro earlier isEarlier
        cases earlier with
        | caller count => exact Nat.lt_succ_of_le (numbers.caller count isEarlier).2
        | leased value =>
          rw [numbers.leased value isEarlier] at notShared
          cases notShared
        | fallback index count =>
          rw [(numbers.fallback index count isEarlier).1] at notShared
          cases notShared
    · rw [if_neg isName, Function.update_of_ne isName]
      exact sound.numbers other

/-- What `start` changes is where it stands. -/
theorem InstanceSound.start (sound : InstanceSound counts process inst locals handed)
    (shares : Bool) :
    InstanceSound counts process (inst.start shares) locals handed := by
  unfold Instance.start
  split
  · exact sound
  · rename_i starts
    simp only [not_or, Bool.not_eq_true, Option.isSome_eq_false_iff,
      Option.isNone_iff_eq_none] at starts
    obtain ⟨notShared, notStarting, _⟩ := starts
    refine ⟨sound.streams, ?_, sound.leasing, sound.distinct, ?_, ?_, ?_⟩
    · intro name
      exact (sound.numbers name).congr rfl rfl rfl fun _ => rfl
    · refine ⟨?_, ?_, ?_⟩
      · intro isShared
        rw [notShared] at isShared
        cases isShared
      · intro _
        rcases sound.phase.alone notShared with
          none | ⟨index, rest, lease, isChain, _⟩
        · exact .inl none
        · rw [notStarting] at isChain
          cases isChain
      · intro index rest isChain
        cases isChain
    · intro isShared
      rw [notShared] at isShared
      cases isShared
    · rintro index (isAsked | ⟨rest, waiting, isAsked⟩) <;> cases isAsked

theorem InstanceSound.startLater (sound : InstanceSound counts process inst locals handed)
    (shares : Bool) :
    InstanceSound counts process (inst.startLater shares) locals handed := by
  unfold Instance.startLater
  split
  · exact sound.start shares
  · exact sound

end

end IyaSts.SeqAllocator
