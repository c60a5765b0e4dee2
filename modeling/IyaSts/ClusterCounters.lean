import IyaSts.Binary64
import IyaSts.JsMap
import Mathlib.Data.List.Induction
import Mathlib.Order.Lattice

namespace IyaSts.ClusterCounters

open Binary64

/-!
# Counters that only go up in one process, `cluster_counters.js`

Without a shared store a counter is an entry of this process's memory.  Every call
reads and writes the memory before it yields, so a run is a sequence of calls.
-/

open List

/-- `memory`. -/
abbrev Memory := JsMap String Nat

/-- The options of `advance`, `Number(value)` taken; no key is an empty one. -/
structure Opts where
  scope : String
  key : String
  value : Number
  realm : Option String
  /-- `realms.currentId()`. -/
  currentId : String

/-- What `advance` answers. -/
inductive Answer where
  | ok (advanced : Bool) (highest : Nat)
  | behind (highest : Nat)
  | store (why : String)
  deriving DecidableEq

/-- `Math.floor` of a number that is then finite and not below zero. -/
def floorOf : Number → Option Nat
  | .finite false magnitude => some ⌊magnitude⌋₊
  | .finite true magnitude => if magnitude = 0 then some 0 else none
  | _ => none

/-- `wanted`, of a call that is not malformed. -/
def wantedOf (opts : Opts) : Option Nat :=
  if opts.scope = "" ∨ opts.key = "" then none else floorOf opts.value

/-- `realmId`. -/
def realmIdOf (opts : Opts) : String := opts.realm.getD opts.currentId

/-- `memoryKey`. -/
def memoryKey (scope realmId digest : String) : String := scope ++ " " ++ realmId ++ " " ++ digest

/-- `verdictOf`. -/
def verdictOf (wanted : Nat) (advanced : Bool) (highest : Nat) : Answer :=
  if advanced then
    .ok true highest
  else if wanted = 0 ∧ highest = 0 then
    .ok false 0
  else
    .behind highest

section Run

-- The digest of a text, under the keystore's key or under none: base64url.
variable (digest : String → String)

/-- `digestOf`. -/
def digestOf (scope key : String) : String := digest (scope ++ "\n" ++ key)

/-- `mkey`. -/
def mkeyOf (opts : Opts) : String :=
  memoryKey opts.scope (realmIdOf opts) (digestOf digest opts.scope opts.key)

/-- `advance`, without a store. -/
def advance (memory : Memory) (opts : Opts) : Answer × Memory :=
  match wantedOf opts with
  | none => (.store "a counter needs a scope, a key and a value of 0 or more", memory)
  | some wanted =>
    let mkey := mkeyOf digest opts
    let had := memory.get mkey
    let current := had.getD 0
    let moved := had.isNone || decide (current < wanted)
    (verdictOf wanted moved (if moved then wanted else current),
      if moved then memory.set mkey wanted else memory)

/-- One call more, and what it was answered. -/
def step (run : Memory × List (Opts × Answer)) (opts : Opts) : Memory × List (Opts × Answer) :=
  ((advance digest run.1 opts).2, run.2 ++ [(opts, (advance digest run.1 opts).1)])

/-- The memory after some calls, and what each was answered. -/
def runOf (calls : List Opts) : Memory × List (Opts × Answer) :=
  calls.foldl (step digest) (.empty, [])

theorem runOf_append (earlier : List Opts) (opts : Opts) :
    runOf digest (earlier ++ [opts]) = step digest (runOf digest earlier) opts := by
  rw [runOf, foldl_append]
  rfl

end Run

/-! ## What is claimed -/

/-- What a counter is named by. -/
structure Counter where
  scope : String
  realm : String
  key : String
  deriving DecidableEq

def counterOf (opts : Opts) : Counter := ⟨opts.scope, realmIdOf opts, opts.key⟩

/-- The value that one call had accepted of a counter. -/
def acceptedBy (counter : Counter) : Opts × Answer → Option Nat
  | (opts, .ok _ _) => if counterOf opts = counter then wantedOf opts else none
  | _ => none

/-- The value to which one call advanced a counter. -/
def advancedBy (counter : Counter) : Opts × Answer → Option Nat
  | (opts, .ok true _) => if counterOf opts = counter then wantedOf opts else none
  | _ => none

/-- The highest value accepted so far, zero where there is none. -/
def highestOf (counter : Counter) (history : List (Opts × Answer)) : Nat :=
  (history.filterMap (acceptedBy counter)).foldl max 0

/-- What a counter that only goes up answers. -/
def expected (highest wanted : Nat) : Answer :=
  if highest < wanted then
    .ok true wanted
  else if wanted = 0 ∧ highest = 0 then
    .ok false 0
  else
    .behind highest

section Claims

variable (digest : String → String)

/-- A call that is not malformed is about a counter. -/
def Calls (calls : List Opts) (counter : Counter) : Prop :=
  ∃ opts ∈ calls, wantedOf opts ≠ none ∧ counterOf opts = counter

/-- What the memory holds of a counter. -/
def held (memory : Memory) (counter : Counter) : Option Nat :=
  memory.get (memoryKey counter.scope counter.realm (digestOf digest counter.scope counter.key))

/-- What one call does after others. -/
structure LawfulCall (earlier : List Opts) (opts : Opts) : Prop where
  verdict :
    ∀ wanted, wantedOf opts = some wanted →
      (advance digest (runOf digest earlier).1 opts).1 =
        expected (highestOf (counterOf opts) (runOf digest earlier).2) wanted
  unchanged :
    (∀ highest,
        (advance digest (runOf digest earlier).1 opts).1 ≠ .ok true highest) →
      (runOf digest (earlier ++ [opts])).1 = (runOf digest earlier).1
  others :
    ∀ counter, Calls earlier counter → counter ≠ counterOf opts →
      held digest (runOf digest (earlier ++ [opts])).1 counter =
        held digest (runOf digest earlier).1 counter

/-- What holds of a run of calls. -/
structure LawfulRun (calls : List Opts) : Prop where
  rising : ∀ counter, ((runOf digest calls).2.filterMap (advancedBy counter)).Pairwise (· < ·)
  positive : ∀ counter, ∀ value ∈ (runOf digest calls).2.filterMap (advancedBy counter), 0 < value
  highest :
    ∀ counter, Calls calls counter →
      (held digest (runOf digest calls).1 counter).getD 0 = highestOf counter (runOf digest calls).2
  each : ∀ earlier opts later, calls = earlier ++ opts :: later → LawfulCall digest earlier opts

/-- A call that neither starts a counter at zero nor shares another's memory. -/
def SoundCall (earlier : List Opts) (opts : Opts) : Prop :=
  ∀ wanted, wantedOf opts = some wanted →
    (¬ Calls earlier (counterOf opts) → 0 < wanted) ∧
      ∀ past ∈ earlier, wantedOf past ≠ none →
        mkeyOf digest past = mkeyOf digest opts → counterOf past = counterOf opts

/-- No counter starts at zero, and no two share the memory's key. -/
def SoundRun (calls : List Opts) : Prop :=
  ∀ earlier opts later, calls = earlier ++ opts :: later → SoundCall digest earlier opts

end Claims

/-! ## What one call answers -/

section Calls

variable {digest : String → String} {memory : Memory} {opts : Opts} {wanted : Nat}

theorem advance_malformed (malformed : wantedOf opts = none) :
    (advance digest memory opts).2 = memory := by
  simp only [advance, malformed]

theorem advance_moves (isWanted : wantedOf opts = some wanted)
    (isAbove : ∀ current, memory.get (mkeyOf digest opts) = some current → current < wanted) :
    advance digest memory opts = (.ok true wanted, memory.set (mkeyOf digest opts) wanted) := by
  have moved :
      ((memory.get (mkeyOf digest opts)).isNone ||
        decide ((memory.get (mkeyOf digest opts)).getD 0 < wanted)) = true := by
    cases isHeld : memory.get (mkeyOf digest opts) with
    | none => rfl
    | some current => simpa using isAbove current isHeld
  simp [advance, isWanted, moved, verdictOf]

theorem advance_stays {current : Nat} (isWanted : wantedOf opts = some wanted)
    (isHeld : memory.get (mkeyOf digest opts) = some current) (notAbove : wanted ≤ current) :
    advance digest memory opts = (verdictOf wanted false current, memory) := by
  simp [advance, isWanted, isHeld, notAbove.not_gt]

end Calls

/-! ## What the calls so far have answered -/

theorem highestOf_append (counter : Counter) (history : List (Opts × Answer))
    (last : Opts × Answer) :
    highestOf counter (history ++ [last]) =
      max (highestOf counter history) ((acceptedBy counter last).getD 0) := by
  unfold highestOf
  rw [filterMap_append, foldl_append]
  cases isAccepted : acceptedBy counter last with
  | none => simp [isAccepted]
  | some value => simp [isAccepted]

variable {counter : Counter} {history : List (Opts × Answer)} {value : Nat}

theorem le_highestOf (isAccepted : value ∈ history.filterMap (acceptedBy counter)) :
    value ≤ highestOf counter history := by
  induction history using List.reverseRecOn with
  | nil => cases isAccepted
  | append_singleton earlier last ih =>
    rw [highestOf_append]
    rw [filterMap_append, mem_append] at isAccepted
    rcases isAccepted with isEarlier | isLast
    · exact le_max_of_le_left (ih isEarlier)
    · rw [mem_filterMap] at isLast
      obtain ⟨_, isMember, isValue⟩ := isLast
      rw [mem_singleton] at isMember
      subst isMember
      rw [isValue, Option.getD_some]
      exact le_max_right _ _

/-- What a counter was advanced to was accepted of it. -/
theorem acceptedBy_of_advancedBy {call : Opts × Answer}
    (isAdvanced : advancedBy counter call = some value) :
    acceptedBy counter call = some value := by
  obtain ⟨opts, answer⟩ := call
  cases answer with
  | ok advanced highest =>
    cases advanced with
    | true => exact isAdvanced
    | false => cases isAdvanced
  | behind highest => cases isAdvanced
  | store why => cases isAdvanced

theorem advanced_le_highestOf (isAdvanced : value ∈ history.filterMap (advancedBy counter)) :
    value ≤ highestOf counter history := by
  rw [mem_filterMap] at isAdvanced
  obtain ⟨call, isMember, isValue⟩ := isAdvanced
  exact le_highestOf (mem_filterMap.mpr ⟨call, isMember, acceptedBy_of_advancedBy isValue⟩)

/-! ## Sound runs -/

section Sound

variable {digest : String → String} {earlier : List Opts} {opts : Opts}

theorem soundRun_append :
    SoundRun digest (earlier ++ [opts]) ↔
      SoundRun digest earlier ∧ SoundCall digest earlier opts := by
  constructor
  · intro sound
    constructor
    · intro before call later isCalls
      refine sound before call (later ++ [opts]) ?_
      rw [isCalls, append_assoc, cons_append]
    · exact sound earlier opts [] rfl
  · rintro ⟨sound, soundLast⟩ before call later isCalls
    rcases eq_nil_or_concat later with isEmpty | ⟨rest, last, isLater⟩
    · subst isEmpty
      obtain ⟨isEarlier, isLast⟩ := append_inj' isCalls rfl
      cases isLast
      subst isEarlier
      exact soundLast
    · subst isLater
      rw [concat_eq_append, ← cons_append, ← append_assoc]
        at isCalls
      exact sound before call rest (append_inj' isCalls rfl).1

theorem calls_append (counter : Counter) :
    Calls (earlier ++ [opts]) counter ↔
      Calls earlier counter ∨ (wantedOf opts ≠ none ∧ counterOf opts = counter) := by
  constructor
  · rintro ⟨call, isMember, isCall⟩
    rw [mem_append, mem_singleton] at isMember
    rcases isMember with isEarlier | rfl
    · exact .inl ⟨call, isEarlier, isCall⟩
    · exact .inr isCall
  · rintro (⟨call, isMember, isCall⟩ | isCall)
    · exact ⟨call, mem_append_left _ isMember, isCall⟩
    · exact ⟨opts, by simp, isCall⟩

variable {calls : List Opts} {counter : Counter}

/-- Two calls of a sound run with one key of the memory are about one counter. -/
theorem counterOf_eq (sound : SoundRun digest calls) {first second : Opts} (isFirst : first ∈ calls)
    (isSecond : second ∈ calls) (fine : wantedOf first ≠ none) (fine' : wantedOf second ≠ none)
    (sameKey : mkeyOf digest first = mkeyOf digest second) :
    counterOf first = counterOf second := by
  induction calls using List.reverseRecOn with
  | nil => cases isFirst
  | append_singleton before last ih =>
    obtain ⟨soundBefore, soundLast⟩ := soundRun_append.mp sound
    obtain ⟨wanted, isWanted⟩ | notWanted := (wantedOf last).eq_none_or_eq_some.symm
    · obtain ⟨-, apart⟩ := soundLast wanted isWanted
      rw [mem_append, mem_singleton] at isFirst isSecond
      rcases isFirst with isFirst | rfl
      · rcases isSecond with isSecond | rfl
        · exact ih soundBefore isFirst isSecond
        · exact apart first isFirst fine sameKey
      · rcases isSecond with isSecond | rfl
        · exact (apart second isSecond fine' sameKey.symm).symm
        · rfl
    · rw [mem_append, mem_singleton] at isFirst isSecond
      rcases isFirst with isFirst | rfl
      · rcases isSecond with isSecond | rfl
        · exact ih soundBefore isFirst isSecond
        · exact absurd notWanted fine'
      · exact absurd notWanted fine

/-! ## The memory of a sound run -/

/-- The memory holds what was accepted of every counter, above zero. -/
structure Settled (digest : String → String) (calls : List Opts) : Prop where
  heldCounter :
    ∀ counter, Calls calls counter →
      held digest (runOf digest calls).1 counter =
          some (highestOf counter (runOf digest calls).2) ∧
        0 < highestOf counter (runOf digest calls).2
  fresh :
    ∀ mkey,
      (∀ past ∈ calls, wantedOf past ≠ none → mkeyOf digest past ≠ mkey) →
        (runOf digest calls).1.get mkey = none
  untouched : ∀ counter, ¬ Calls calls counter → highestOf counter (runOf digest calls).2 = 0
  rising : ∀ counter, ((runOf digest calls).2.filterMap (advancedBy counter)).Pairwise (· < ·)
  positive : ∀ counter, ∀ value ∈ (runOf digest calls).2.filterMap (advancedBy counter), 0 < value

/-- What a sound call does: it advances its counter, or stays behind it. -/
theorem advance_sound (settled : Settled digest earlier)
    (sound : SoundCall digest earlier opts) {wanted : Nat}
    (isWanted : wantedOf opts = some wanted) :
    (highestOf (counterOf opts) (runOf digest earlier).2 < wanted ∧
        advance digest (runOf digest earlier).1 opts =
          (.ok true wanted, (runOf digest earlier).1.set (mkeyOf digest opts) wanted)) ∨
      (wanted ≤ highestOf (counterOf opts) (runOf digest earlier).2 ∧
        0 < highestOf (counterOf opts) (runOf digest earlier).2 ∧
          advance digest (runOf digest earlier).1 opts =
            (.behind (highestOf (counterOf opts) (runOf digest earlier).2),
              (runOf digest earlier).1)) := by
  obtain ⟨startsAbove, apart⟩ := sound wanted isWanted
  by_cases isCalled : Calls earlier (counterOf opts)
  · obtain ⟨isHeld, positive⟩ := settled.heldCounter _ isCalled
    generalize highestOf (counterOf opts) (runOf digest earlier).2 = highest
      at isHeld positive ⊢
    rcases lt_or_ge highest wanted with isAbove | notAbove
    · left
      refine ⟨isAbove, advance_moves isWanted fun current isCurrent => ?_⟩
      have same : some current = some highest := isCurrent.symm.trans isHeld
      cases same
      exact isAbove
    · right
      refine ⟨notAbove, positive, ?_⟩
      rw [advance_stays isWanted isHeld notAbove, verdictOf,
        if_neg (by decide), if_neg fun isZero => positive.ne' isZero.2]
  · left
    rw [settled.untouched _ isCalled]
    refine ⟨startsAbove isCalled, advance_moves isWanted ?_⟩
    have isFresh :=
      settled.fresh (mkeyOf digest opts) fun past isPast fine sameKey =>
        isCalled ⟨past, isPast, fine, apart past isPast fine sameKey⟩
    intro current isCurrent
    rw [isFresh] at isCurrent
    cases isCurrent

/-- Only the counter that a sound call is about has another value held. -/
theorem held_set_other (sound : SoundCall digest earlier opts) {wanted : Nat}
    (isWanted : wantedOf opts = some wanted) (isCalled : Calls earlier counter)
    (isOther : counter ≠ counterOf opts) (memory : Memory) :
    held digest (memory.set (mkeyOf digest opts) wanted) counter = held digest memory counter := by
  obtain ⟨past, isPast, fine, rfl⟩ := isCalled
  refine JsMap.get_set_other _ (fun sameKey => isOther ?_) wanted
  exact (sound wanted isWanted).2 past isPast fine sameKey

/-- A call that is refused leaves the memory settled. -/
theorem settled_refused (settled : Settled digest earlier) {answer : Answer}
    (isAnswer :
      advance digest (runOf digest earlier).1 opts =
        (answer, (runOf digest earlier).1))
    (notAccepted : ∀ counter, acceptedBy counter (opts, answer) = none)
    (isCalled : wantedOf opts ≠ none → Calls earlier (counterOf opts)) :
    Settled digest (earlier ++ [opts]) := by
  have isRun :
      runOf digest (earlier ++ [opts]) =
        ((runOf digest earlier).1, (runOf digest earlier).2 ++ [(opts, answer)]) := by
    rw [runOf_append, step, isAnswer]
  have sameCalls (counter) : Calls (earlier ++ [opts]) counter ↔ Calls earlier counter := by
    rw [calls_append]
    constructor
    · rintro (isEarlier | ⟨fine, rfl⟩)
      · exact isEarlier
      · exact isCalled fine
    · exact .inl
  have sameHighest (counter) :
      highestOf counter ((runOf digest earlier).2 ++ [(opts, answer)]) =
        highestOf counter (runOf digest earlier).2 := by
    rw [highestOf_append, notAccepted]
    exact Nat.max_zero _
  have sameAdvanced (counter) :
      ((runOf digest earlier).2 ++ [(opts, answer)]).filterMap
          (advancedBy counter) =
        (runOf digest earlier).2.filterMap (advancedBy counter) := by
    have notAdvanced : advancedBy counter (opts, answer) = none := by
      cases isAdvanced : advancedBy counter (opts, answer) with
      | none => rfl
      | some value =>
        have isAccepted := acceptedBy_of_advancedBy isAdvanced
        rw [notAccepted] at isAccepted
        cases isAccepted
    rw [filterMap_append, filterMap_cons_none notAdvanced,
      filterMap_nil, append_nil]
  refine ⟨?_, ?_, ?_, ?_, ?_⟩
  · intro counter isCall
    rw [isRun, sameHighest]
    exact settled.heldCounter counter ((sameCalls counter).mp isCall)
  · intro mkey isFree
    rw [isRun]
    exact settled.fresh mkey fun past isPast => isFree past (mem_append_left _ isPast)
  · intro counter notCalled
    rw [isRun, sameHighest]
    exact settled.untouched counter fun isCall => notCalled ((sameCalls counter).mpr isCall)
  · intro counter
    rw [isRun, sameAdvanced]
    exact settled.rising counter
  · intro counter
    rw [isRun, sameAdvanced]
    exact settled.positive counter

/-- A call that advances its counter leaves the memory settled. -/
theorem settled_advanced (settled : Settled digest earlier)
    (sound : SoundCall digest earlier opts) {wanted : Nat} (isWanted : wantedOf opts = some wanted)
    (isAbove : highestOf (counterOf opts) (runOf digest earlier).2 < wanted)
    (isAnswer :
      advance digest (runOf digest earlier).1 opts =
        (.ok true wanted,
          (runOf digest earlier).1.set (mkeyOf digest opts) wanted)) :
    Settled digest (earlier ++ [opts]) := by
  have isRun :
      runOf digest (earlier ++ [opts]) =
        ((runOf digest earlier).1.set (mkeyOf digest opts) wanted,
          (runOf digest earlier).2 ++ [(opts, .ok true wanted)]) := by
    rw [runOf_append, step, isAnswer]
  have isAccepted : acceptedBy (counterOf opts) (opts, .ok true wanted) = some wanted := by
    rw [acceptedBy, if_pos rfl, isWanted]
  have notOther {counter} (isOther : counter ≠ counterOf opts) :
      acceptedBy counter (opts, .ok true wanted) = none := by
    rw [acceptedBy, if_neg isOther.symm]
  have isHighest :
      highestOf (counterOf opts)
          ((runOf digest earlier).2 ++ [(opts, .ok true wanted)]) =
        wanted := by
    rw [highestOf_append, isAccepted, Option.getD_some]
    exact max_eq_right isAbove.le
  have otherHighest {counter} (isOther : counter ≠ counterOf opts) :
      highestOf counter
          ((runOf digest earlier).2 ++ [(opts, .ok true wanted)]) =
        highestOf counter (runOf digest earlier).2 := by
    rw [highestOf_append, notOther isOther]
    exact Nat.max_zero _
  have isAdvanced : advancedBy (counterOf opts) (opts, .ok true wanted) = some wanted := isAccepted
  have otherAdvanced {counter} (isOther : counter ≠ counterOf opts) :
      ((runOf digest earlier).2 ++ [(opts, Answer.ok true wanted)]).filterMap
          (advancedBy counter) =
        (runOf digest earlier).2.filterMap (advancedBy counter) := by
    have notAdvanced : advancedBy counter (opts, Answer.ok true wanted) = none := notOther isOther
    rw [filterMap_append, filterMap_cons_none notAdvanced,
      filterMap_nil, append_nil]
  refine ⟨?_, ?_, ?_, ?_, ?_⟩
  · intro counter isCall
    rw [isRun]
    by_cases isOther : counter = counterOf opts
    · subst isOther
      rw [isHighest]
      exact ⟨JsMap.get_set_self _ _ _, Nat.zero_lt_of_lt isAbove⟩
    · rcases (calls_append counter).mp isCall with isEarlier | ⟨-, isLast⟩
      · rw [otherHighest isOther, held_set_other sound isWanted isEarlier isOther]
        exact settled.heldCounter counter isEarlier
      · exact absurd isLast.symm isOther
  · intro mkey isFree
    have notLast : mkey ≠ mkeyOf digest opts :=
      Ne.symm (isFree opts (by simp) (by rw [isWanted]; nofun))
    rw [isRun]
    refine (JsMap.get_set_other _ notLast wanted).trans ?_
    exact settled.fresh mkey fun past isPast => isFree past (mem_append_left _ isPast)
  · intro counter notCalled
    have isOther : counter ≠ counterOf opts := fun same =>
      notCalled ((calls_append counter).mpr (.inr ⟨by rw [isWanted]; nofun, same.symm⟩))
    rw [isRun, otherHighest isOther]
    exact settled.untouched counter fun isCall =>
      notCalled ((calls_append counter).mpr (.inl isCall))
  · intro counter
    rw [isRun]
    by_cases isOther : counter = counterOf opts
    · subst isOther
      rw [filterMap_append, pairwise_append]
      refine ⟨settled.rising _, by simp [isAdvanced], fun value isValue last isLast => ?_⟩
      rw [filterMap_cons_some isAdvanced, filterMap_nil, mem_singleton] at isLast
      subst isLast
      exact (advanced_le_highestOf isValue).trans_lt isAbove
    · rw [otherAdvanced isOther]
      exact settled.rising counter
  · intro counter value isValue
    rw [isRun] at isValue
    by_cases isOther : counter = counterOf opts
    · subst isOther
      rw [filterMap_append, filterMap_cons_some isAdvanced,
        filterMap_nil, mem_append, mem_singleton] at isValue
      rcases isValue with isEarlier | rfl
      · exact settled.positive _ value isEarlier
      · exact Nat.zero_lt_of_lt isAbove
    · rw [otherAdvanced isOther] at isValue
      exact settled.positive counter value isValue

theorem calls_of_highestOf (settled : Settled digest earlier)
    (positive : 0 < highestOf counter (runOf digest earlier).2) :
    Calls earlier counter := by
  by_contra notCalled
  exact positive.ne' (settled.untouched counter notCalled)

theorem settled_append (settled : Settled digest earlier) (sound : SoundCall digest earlier opts) :
    Settled digest (earlier ++ [opts]) := by
  cases isWanted : wantedOf opts with
  | none =>
    exact settled_refused settled (by simp only [advance, isWanted]; rfl)
      (fun _ => rfl) fun fine => absurd isWanted fine
  | some wanted =>
    rcases advance_sound settled sound isWanted with
      ⟨isAbove, isAnswer⟩ | ⟨-, positive, isAnswer⟩
    · exact settled_advanced settled sound isWanted isAbove isAnswer
    · exact settled_refused settled isAnswer (fun _ => rfl) fun _ =>
        calls_of_highestOf settled positive

theorem settled_of_sound (sound : SoundRun digest calls) : Settled digest calls := by
  induction calls using List.reverseRecOn with
  | nil =>
    refine ⟨?_, fun _ _ => rfl, fun _ _ => rfl, fun _ => List.Pairwise.nil, ?_⟩
    · rintro counter ⟨_, isMember, -⟩
      cases isMember
    · intro counter value isMember
      cases isMember
  | append_singleton before last ih =>
    obtain ⟨soundBefore, soundLast⟩ := soundRun_append.mp sound
    exact settled_append (ih soundBefore) soundLast

/-! ## Lawful and sound runs -/

theorem lawfulCall_of_sound (settled : Settled digest earlier)
    (sound : SoundCall digest earlier opts) :
    LawfulCall digest earlier opts := by
  cases isWanted : wantedOf opts with
  | none =>
    have sameMemory : (runOf digest (earlier ++ [opts])).1 = (runOf digest earlier).1 := by
      rw [runOf_append, step]
      exact advance_malformed isWanted
    refine ⟨?_, fun _ => sameMemory, fun _ _ _ => by rw [sameMemory]⟩
    intro wanted isSome
    rw [isWanted] at isSome
    cases isSome
  | some wanted =>
    rcases advance_sound settled sound isWanted with
      ⟨isAbove, isAnswer⟩ | ⟨notAbove, positive, isAnswer⟩
    · refine ⟨?_, ?_, ?_⟩
      · intro value isValue
        cases isWanted.symm.trans isValue
        rw [isAnswer, expected, if_pos isAbove]
      · intro notAdvanced
        rw [isAnswer] at notAdvanced
        exact absurd rfl (notAdvanced wanted)
      · intro counter isCalled isOther
        rw [runOf_append, step, isAnswer]
        exact held_set_other sound isWanted isCalled isOther _
    · have sameMemory : (runOf digest (earlier ++ [opts])).1 = (runOf digest earlier).1 := by
        rw [runOf_append, step, isAnswer]
      refine ⟨?_, fun _ => sameMemory, fun _ _ _ => by rw [sameMemory]⟩
      intro value isValue
      cases isWanted.symm.trans isValue
      rw [isAnswer, expected, if_neg notAbove.not_gt, if_neg fun isZero => positive.ne' isZero.2]

/-- A call of a lawful run after a sound one is sound. -/
theorem soundCall_of_lawful (soundBefore : SoundRun digest earlier)
    (lawful : LawfulCall digest earlier opts) :
    SoundCall digest earlier opts := by
  have settled := settled_of_sound soundBefore
  intro wanted isWanted
  have verdict := lawful.verdict wanted isWanted
  -- What the memory holds under this key was held of some counter, above zero.
  have heldAbove {past : Opts}
      (isPast : past ∈ earlier)
      (fine : wantedOf past ≠ none)
      (sameKey : mkeyOf digest past = mkeyOf digest opts) :
      ∃ current,
        (runOf digest earlier).1.get (mkeyOf digest opts) = some current ∧ 0 < current := by
    obtain ⟨isHeld, positive⟩ := settled.heldCounter (counterOf past) ⟨past, isPast, fine, rfl⟩
    exact ⟨_, sameKey ▸ isHeld, positive⟩
  -- A counter that was not called yet is refused behind what another one holds.
  have notBehind {current : Nat}
      (notCalled : ¬ Calls earlier (counterOf opts))
      (isCurrent : (runOf digest earlier).1.get (mkeyOf digest opts) = some current)
      (positive : 0 < current) :
      current < wanted := by
    by_contra notAbove
    rw [advance_stays isWanted isCurrent (not_lt.mp notAbove), verdictOf,
      if_neg (by decide), if_neg fun isZero => positive.ne' isZero.2,
      settled.untouched _ notCalled, expected] at verdict
    split at verdict
    · cases verdict
    · rename_i isZero
      rw [if_pos ⟨Nat.eq_zero_of_not_pos isZero, rfl⟩] at verdict
      cases verdict
  constructor
  · intro notCalled
    by_contra isZero
    obtain rfl := Nat.eq_zero_of_not_pos isZero
    cases isHeld : (runOf digest earlier).1.get (mkeyOf digest opts) with
    | none =>
      rw [advance_moves isWanted (by rw [isHeld]; nofun), settled.untouched _ notCalled] at verdict
      cases verdict
    | some current =>
      by_cases isFresh :
          ∀ past ∈ earlier, wantedOf past ≠ none → mkeyOf digest past ≠ mkeyOf digest opts
      · rw [settled.fresh _ isFresh] at isHeld
        cases isHeld
      · push Not at isFresh
        obtain ⟨past, isPast, fine, sameKey⟩ := isFresh
        obtain ⟨current', isCurrent, positive⟩ := heldAbove isPast fine sameKey
        exact absurd (notBehind notCalled isCurrent positive) (Nat.not_lt_zero _)
  · intro past isPast fine sameKey
    by_contra isOther
    have notCalled : ¬ Calls earlier (counterOf opts) := by
      rintro ⟨own, isOwn, fineOwn, isCounter⟩
      have ownKey : mkeyOf digest own = mkeyOf digest opts := by
        simp only [counterOf, Counter.mk.injEq] at isCounter
        unfold mkeyOf
        rw [isCounter.1, isCounter.2.1, isCounter.2.2]
      exact isOther
        ((counterOf_eq soundBefore isPast isOwn fine fineOwn
          (sameKey.trans ownKey.symm)).trans isCounter)
    obtain ⟨current, isCurrent, positive⟩ := heldAbove isPast fine sameKey
    have isAbove := notBehind notCalled isCurrent positive
    have kept := lawful.others (counterOf past) ⟨past, isPast, fine, rfl⟩ isOther
    have moved :
        advance digest (runOf digest earlier).1 opts =
          (.ok true wanted, (runOf digest earlier).1.set (mkeyOf digest opts) wanted) := by
      refine advance_moves isWanted fun other isHeld => ?_
      rw [isCurrent] at isHeld
      cases isHeld
      exact isAbove
    have isHeld (memory : Memory) :
        held digest memory (counterOf past) = memory.get (mkeyOf digest opts) := by
      rw [← sameKey]
      rfl
    rw [isHeld, isHeld, isCurrent, runOf_append, step, moved,
      JsMap.get_set_self, Option.some.injEq] at kept
    exact isAbove.ne' kept

end Sound

/-- A run keeps every counter's law exactly where no counter starts at zero and no two
counters share a key of the memory. -/
theorem lawfulRun_iff (digest : String → String) (calls : List Opts) :
    LawfulRun digest calls ↔ SoundRun digest calls := by
  constructor
  · intro lawful
    have soundPart (earlier later : List Opts) (isCalls : calls = earlier ++ later) :
        SoundRun digest earlier := by
      induction earlier using List.reverseRecOn generalizing later with
      | nil =>
        intro before opts rest isEmpty
        cases before <;> cases isEmpty
      | append_singleton before last ih =>
        rw [append_assoc] at isCalls
        have soundBefore := ih _ isCalls
        exact soundRun_append.mpr
          ⟨soundBefore, soundCall_of_lawful soundBefore (lawful.each before last later isCalls)⟩
    exact soundPart calls [] (append_nil calls).symm
  · intro sound
    have settled := settled_of_sound sound
    refine ⟨settled.rising, settled.positive, ?_, ?_⟩
    · intro counter isCalled
      rw [(settled.heldCounter counter isCalled).1, Option.getD_some]
    · intro earlier opts later isCalls
      have soundPart : SoundRun digest (earlier ++ [opts]) := by
        intro before call rest isPart
        refine sound before call (rest ++ later) ?_
        rw [isCalls, ← singleton_append, ← append_assoc, isPart,
          append_assoc, cons_append]
      obtain ⟨soundEarlier, soundLast⟩ := soundRun_append.mp soundPart
      exact lawfulCall_of_sound (settled_of_sound soundEarlier) soundLast

/-- The first call of a counter that keeps none. -/
def zeroCall : Opts where
  scope := "authn.webauthn-sign-count"
  key := "credential"
  value := .finite false 0
  realm := some "default"
  currentId := "default"

/-- A counter that reports zero is advanced by its first call. -/
theorem zeroCall_advances : ¬ LawfulRun id [zeroCall] := by
  intro lawful
  have verdict := (lawful.each [] zeroCall [] rfl).verdict 0 (by decide +kernel)
  have advanced : (advance id (runOf id []).1 zeroCall).1 = .ok true 0 := by decide +kernel
  have isExpected : expected (highestOf (counterOf zeroCall) (runOf id []).2) 0 = .ok false 0 := by
    decide +kernel
  rw [advanced, isExpected] at verdict
  cases verdict

end IyaSts.ClusterCounters
