import IyaSts.DirectoryCreateArbiterDecides

namespace IyaSts.DirectoryCreateArbiter

/-!
# A committed create is not missed

Where the release of a committed create arrives before its claim is gone, each
create in the store is under a live claim or has the number of a release.  What
a holder has caught up with, by number, is in its directory.
-/

/-! ## What is remembered of the creates in the store -/

/-- The number of the release of each create, if it was released. -/
abbrev Numbering := Create → Option Nat

/-- The creates of the releases up to one are in a directory. -/
structure Reached (node : Node) (number : Numbering) (holder : String) (through : Nat) :
    Prop where
  le : through ≤ node.arbiter.seq
  seen : ∀ create ∈ node.store, ∀ count, number create = some count →
    count ≤ through → (holder, create) ∈ node.directories

/-- The creates of the releases up to one are in a list. -/
def Covers (node : Node) (number : Numbering) (through : Nat) (creates : List Create) : Prop :=
  ∀ create ∈ node.store, ∀ count, number create = some count → count ≤ through → create ∈ creates

/--
As long as a holder has the claim, the creates of its keys are in its directory
or in a list.
-/
def Seen (node : Node) (holder : String) (reservation : Nat) (keys : List String)
    (creates : List Create) :
    Prop :=
  ∀ key ∈ keys, node.arbiter.Holds holder reservation key →
    ∀ create ∈ node.store, create.key = key →
      holder = front ∨ create ∈ creates ∨ (holder, create) ∈ node.directories

/-- Each create is under a live claim, remembered or forgotten. -/
structure Remembered (node : Node) (number : Numbering) : Prop where
  fresh : ∀ create ∈ node.store, create.reservation ≤ node.arbiter.nextReservation
  counted : ∀ create ∈ node.store, ∀ count, number create = some count →
    0 < count ∧ count ≤ node.arbiter.seq
  pending : ∀ create ∈ node.store, number create = none →
    node.arbiter.Holds create.holder create.reservation create.key
  remembered : ∀ create ∈ node.store, ∀ count, number create = some count →
    count ≤ node.arbiter.forgottenThrough ∨
      ∃ last, node.arbiter.settled.get create.key = some last ∧
        count ≤ last.seq ∧
        (last.holder = front ∨ (last.holder, create) ∈ node.directories)
  reached : ∀ holder, Reached node number holder (node.arbiter.since holder)

/-- A table holds a key under one claim. -/
theorem Arbiter.Holds.unique {arbiter : Arbiter} {holder other : String}
    {reservation reservation' : Nat} {key : String} (held : arbiter.Holds holder reservation key)
    (held' : arbiter.Holds other reservation' key) :
    holder = other ∧ reservation = reservation' := by
  obtain ⟨live, isLive, rfl, rfl⟩ := held
  obtain ⟨live', isLive', rfl, rfl⟩ := held'
  rw [isLive, Option.some.injEq] at isLive'
  subst isLive'
  exact ⟨rfl, rfl⟩

/-! ## What may change -/

/-- Nothing that was seen or counted is lost. -/
structure Evolves (node : Node) (number : Numbering) (node' : Node) (number' : Numbering) :
    Prop where
  directories : ∀ entry ∈ node.directories, entry ∈ node'.directories
  nextReservation : node.arbiter.nextReservation ≤ node'.arbiter.nextReservation
  seq : node.arbiter.seq ≤ node'.arbiter.seq
  numbers : ∀ create ∈ node'.store, ∀ count, number' create = some count →
    count ≤ node.arbiter.seq → create ∈ node.store ∧ number create = some count
  held : ∀ holder reservation key,
    reservation ≤ node.arbiter.nextReservation →
      node'.arbiter.Holds holder reservation key → node.arbiter.Holds holder reservation key
  created : ∀ create ∈ node'.store, create ∉ node.store →
    node'.arbiter.Holds create.holder create.reservation create.key ∧
      (create.holder = front ∨ (create.holder, create) ∈ node'.directories)

namespace Evolves

variable {node middle node' : Node} {number number₁ number' : Numbering}

theorem refl (node : Node) (number : Numbering) : Evolves node number node number where
  directories := fun _ isEntry => isEntry
  nextReservation := Nat.le_refl _
  seq := Nat.le_refl _
  numbers := fun _ isCreate _ isCount _ => ⟨isCreate, isCount⟩
  held := fun _ _ _ _ isHeld => isHeld
  created := fun _ isCreate isNew => absurd isCreate isNew

/-- A change of the store comes last. -/
theorem trans (first : Evolves node number middle number₁)
    (second : Evolves middle number₁ node' number') (sameStore : middle.store = node.store) :
    Evolves node number node' number' where
  directories := fun entry isEntry => second.directories entry (first.directories entry isEntry)
  nextReservation := Nat.le_trans first.nextReservation second.nextReservation
  seq := Nat.le_trans first.seq second.seq
  numbers := by
    intro create isCreate count isCount isLow
    obtain ⟨wasCreate, wasCount⟩ :=
      second.numbers create isCreate count isCount (Nat.le_trans isLow first.seq)
    exact first.numbers create wasCreate count wasCount isLow
  held := by
    intro holder reservation key isOld isHeld
    exact
      first.held holder reservation key isOld
        (second.held holder reservation key (Nat.le_trans isOld first.nextReservation) isHeld)
  created := by
    intro create isCreate isNew
    rw [← sameStore] at isNew
    exact second.created create isCreate isNew

variable {holder : String} {through : Nat} {creates : List Create}

theorem reached (evolves : Evolves node number node' number')
    (isReached : Reached node number holder through) :
    Reached node' number' holder through where
  le := Nat.le_trans isReached.le evolves.seq
  seen := by
    intro create isCreate count isCount isLow
    obtain ⟨wasCreate, wasCount⟩ :=
      evolves.numbers create isCreate count isCount (Nat.le_trans isLow isReached.le)
    exact evolves.directories _ (isReached.seen create wasCreate count wasCount isLow)

theorem covers (evolves : Evolves node number node' number') (le : through ≤ node.arbiter.seq)
    (isCovered : Covers node number through creates) :
    Covers node' number' through creates := by
  intro create isCreate count isCount isLow
  obtain ⟨wasCreate, wasCount⟩ :=
    evolves.numbers create isCreate count isCount (Nat.le_trans isLow le)
  exact isCovered create wasCreate count wasCount isLow

theorem seen (evolves : Evolves node number node' number') {reservation : Nat} {keys : List String}
    (isOld : reservation ≤ node.arbiter.nextReservation)
    (isSeen : Seen node holder reservation keys creates) :
    Seen node' holder reservation keys creates := by
  intro key isKey isHeld create isCreate sameKey
  by_cases wasCreate : create ∈ node.store
  · have wasHeld := evolves.held holder reservation key isOld isHeld
    rcases isSeen key isKey wasHeld create wasCreate sameKey with
      isFront | isIn | isSeen
    · exact .inl isFront
    · exact .inr (.inl isIn)
    · exact .inr (.inr (evolves.directories _ isSeen))
  · -- A new create is made under the claim that is held now.
    obtain ⟨isClaimed, isOwn⟩ := evolves.created create isCreate wasCreate
    rw [sameKey] at isClaimed
    obtain ⟨rfl, _⟩ := isHeld.unique isClaimed
    rcases isOwn with isFront | isOwn
    · exact .inl isFront
    · exact .inr (.inr isOwn)

end Evolves

/-! ## Messages, answers and claims -/

/-- What a holder was told with a grant. -/
def Told (node : Node) (holder : String) (reservation : Nat) (keys : List String)
    (through : Option Nat) :
    Prop :=
  reservation ≤ node.arbiter.nextReservation ∧
    match through with
    | none => Seen node holder reservation keys []
    | some through => through ≤ node.arbiter.seq

/-- A message in flight to the front process. -/
def MessageSound (node : Node) (number : Numbering) :
    String × Message → Prop
  | (_, .claim _ _ _) => True
  | (pid, .release reservation keys committed) =>
    reservation ≤ node.arbiter.nextReservation ∧
      (committed = true → Seen node (holderOf pid) reservation keys [])
  | (pid, .caughtUp through) => Reached node number (holderOf pid) through

/-- An answer in flight to a worker. -/
def ReplySound (node : Node) (sent : String × Reply) : Prop :=
  ∀ reservation through, sent.2.answer = .granted reservation through →
    Told node (holderOf sent.1) reservation sent.2.keys through

/-- A claim its holder knows it has. -/
structure HoldingSound (node : Node) (number : Numbering) (holding : Holding) :
    Prop where
  told : Told node holding.party.holder holding.reservation holding.keys holding.through
  pulled : holding.pulled = true →
    Seen node holding.party.holder holding.reservation holding.keys []
  pulling : ∀ creates, holding.pulling = some creates →
    Seen node holding.party.holder holding.reservation holding.keys creates ∧
      ∀ through, holding.through = some through → Covers node number through creates

section

variable {node node' : Node} {number number' : Numbering}

theorem Told.evolve {holder : String} {reservation : Nat} {keys : List String}
    {through : Option Nat} (isTold : Told node holder reservation keys through)
    (evolves : Evolves node number node' number') :
    Told node' holder reservation keys through := by
  refine ⟨Nat.le_trans isTold.1 evolves.nextReservation, ?_⟩
  cases through with
  | none => exact evolves.seen isTold.1 isTold.2
  | some through => exact Nat.le_trans isTold.2 evolves.seq

theorem MessageSound.evolve {sent : String × Message} (sound : MessageSound node number sent)
    (evolves : Evolves node number node' number') :
    MessageSound node' number' sent := by
  obtain ⟨pid, message⟩ := sent
  cases message with
  | claim => trivial
  | release reservation keys committed =>
    exact
      ⟨Nat.le_trans sound.1 evolves.nextReservation,
        fun isCommitted => evolves.seen sound.1 (sound.2 isCommitted)⟩
  | caughtUp through => exact evolves.reached sound

variable {holding : Holding}

theorem HoldingSound.evolve (sound : HoldingSound node number holding)
    (evolves : Evolves node number node' number') :
    HoldingSound node' number' holding where
  told := sound.told.evolve evolves
  pulled := fun isPulled => evolves.seen sound.told.1 (sound.pulled isPulled)
  pulling := by
    intro creates isPulling
    obtain ⟨isSeen, covers⟩ := sound.pulling creates isPulling
    refine ⟨evolves.seen sound.told.1 isSeen, ?_⟩
    intro through isThrough
    have le : through ≤ node.arbiter.seq := by
      have isTold := sound.told.2
      rw [isThrough] at isTold
      exact isTold
    exact evolves.covers le (covers through isThrough)

/-- A holder that is ready has seen the creates of its keys. -/
theorem HoldingSound.seen (sound : HoldingSound node number holding)
    (isReady : holding.ready = true) :
    Seen node holding.party.holder holding.reservation holding.keys [] := by
  rw [Holding.ready, Bool.or_eq_true] at isReady
  rcases isReady with notTold | isPulled
  · have isTold := sound.told.2
    rw [Option.isNone_iff_eq_none] at notTold
    rw [notTold] at isTold
    exact isTold
  · exact sound.pulled isPulled

end

/-! ## The arbiter's operations -/

/-- Another state of the front process's memory. -/
def Node.withArbiter (node : Node) (arbiter : Arbiter) : Node :=
  { node with arbiter }

/-- No claim whose create has committed has run out. -/
def Unexpired (node : Node) (now : Int) : Prop :=
  ∀ create ∈ node.store, ∀ held,
    node.arbiter.live.get create.key = some held →
      held.holder = create.holder → held.reservation = create.reservation → now < held.expiresAt

section

variable {node : Node} {number : Numbering}

theorem Reached.zero (remembered : Remembered node number) (holder : String) :
    Reached node number holder 0 where
  le := Nat.zero_le _
  seen := by
    intro create isCreate count isCount isZero
    have isCounted := remembered.counted create isCreate count isCount
    omega

/--
A change of the claims alone: those of the creates in the store stay, and none
comes but with a new reservation.
-/
structure ClaimsChange (node : Node) (after : Arbiter) : Prop where
  settled : after.settled = node.arbiter.settled
  seq : after.seq = node.arbiter.seq
  forgottenThrough : after.forgottenThrough = node.arbiter.forgottenThrough
  nextReservation : node.arbiter.nextReservation ≤ after.nextReservation
  since : ∀ holder, after.since holder = node.arbiter.since holder ∨ after.since holder = 0
  kept : ∀ create ∈ node.store,
    node.arbiter.Holds create.holder create.reservation create.key →
      after.Holds create.holder create.reservation create.key
  held : ∀ holder reservation key,
    reservation ≤ node.arbiter.nextReservation →
      after.Holds holder reservation key → node.arbiter.Holds holder reservation key

variable {after : Arbiter} {key : String}

theorem ClaimsChange.evolves (change : ClaimsChange node after) (number : Numbering) :
    Evolves node number (node.withArbiter after) number where
  directories := fun _ isEntry => isEntry
  nextReservation := change.nextReservation
  seq := Nat.le_of_eq change.seq.symm
  numbers := fun _ isCreate _ isCount _ => ⟨isCreate, isCount⟩
  held := change.held
  created := fun _ isCreate isNew => absurd isCreate isNew

theorem ClaimsChange.remembered (change : ClaimsChange node after)
    (remembered : Remembered node number) :
    Remembered (node.withArbiter after) number where
  fresh := fun create isCreate =>
    Nat.le_trans (remembered.fresh create isCreate) change.nextReservation
  counted := by
    intro create isCreate count isCount
    have isCounted := remembered.counted create isCreate count isCount
    simpa only [Node.withArbiter, change.seq] using isCounted
  pending := fun create isCreate isPending =>
    change.kept create isCreate (remembered.pending create isCreate isPending)
  remembered := by
    intro create isCreate count isCount
    have isRemembered := remembered.remembered create isCreate count isCount
    simpa only [Node.withArbiter, change.settled, change.forgottenThrough] using isRemembered
  reached := by
    intro holder
    rcases change.since holder with isSame | isZero
    · rw [Node.withArbiter, isSame]
      exact (change.evolves number).reached (remembered.reached holder)
    · rw [Node.withArbiter, isZero]
      exact (change.evolves number).reached (Reached.zero remembered holder)

/-- A decision takes no claim whose create has committed. -/
theorem ClaimsChange.decision {now : Int} (unexpired : Unexpired node now)
    {holder : String} {keys : List String} {ttlMs : Int} {answer : Answer} {after : Arbiter}
    (decision : node.arbiter.Decision now holder keys ttlMs answer after) :
    ClaimsChange node after := by
  cases decision with
  | granted isGranted =>
    exact
      { settled := isGranted.settled
        seq := isGranted.seq
        forgottenThrough := isGranted.forgottenThrough
        nextReservation := by
          rw [isGranted.nextReservation]
          exact Nat.le_succ _
        since := fun other => by
          left
          rw [Arbiter.since, Arbiter.since, isGranted.pulledThrough]
        kept := by
          rintro create isCreate ⟨held, isHeld, isHolder, isReservation⟩
          have isLive := unexpired create isCreate held isHeld isHolder isReservation
          refine ⟨held, ?_, isHolder, isReservation⟩
          by_cases isKey : create.key ∈ keys
          · have isOver := isGranted.free _ isKey held isHeld
            exact absurd isLive (Int.not_lt.mpr isOver)
          · rcases isGranted.kept _ held isKey isHeld with isKept | isOver
            · exact isKept
            · exact absurd isLive (Int.not_lt.mpr isOver)
        held := by
          rintro other reservation key isOld ⟨held, isHeld, isHolder, isReservation⟩
          by_cases isKey : key ∈ keys
          · rw [isGranted.taken key isKey, Option.some.injEq] at isHeld
            subst isHeld
            simp only [Arbiter.claimOf] at isReservation
            omega
          · exact ⟨held, isGranted.held key held isKey isHeld, isHolder, isReservation⟩ }
  | refused notGranted isSwept =>
    exact
      { settled := isSwept.settled
        seq := isSwept.seq
        forgottenThrough := isSwept.forgottenThrough
        nextReservation := Nat.le_of_eq isSwept.nextReservation.symm
        since := fun other => by
          left
          rw [Arbiter.since, Arbiter.since, isSwept.pulledThrough]
        kept := by
          rintro create isCreate ⟨held, isHeld, isHolder, isReservation⟩
          have isLive := unexpired create isCreate held isHeld isHolder isReservation
          rcases isSwept.kept _ held isHeld with isKept | isOver
          · exact ⟨held, isKept, isHolder, isReservation⟩
          · exact absurd isLive (Int.not_lt.mpr isOver)
        held := by
          rintro other reservation key _ ⟨held, isHeld, isHolder, isReservation⟩
          exact ⟨held, isSwept.held key held isHeld, isHolder, isReservation⟩ }

/-- An exit drops no claim whose create has committed. -/
theorem ClaimsChange.dropHolder {holder : String}
    (noneCommitted : ∀ create ∈ node.store, create.holder = holder →
      ¬node.arbiter.Holds create.holder create.reservation create.key) :
    ClaimsChange node (node.arbiter.dropHolder holder).2 where
  settled := rfl
  seq := rfl
  forgottenThrough := rfl
  nextReservation := Nat.le_refl _
  since := by
    intro other
    by_cases isOther : other = holder
    · right
      simp [Arbiter.since, Arbiter.dropHolder, isOther]
    · left
      simp [Arbiter.since, Arbiter.dropHolder, isOther]
  kept := by
    rintro create isCreate ⟨held, isHeld, isHolder, isReservation⟩
    have notHolder : create.holder ≠ holder := by
      intro isGone
      exact noneCommitted create isCreate isGone ⟨held, isHeld, isHolder, isReservation⟩
    refine ⟨held, ?_, isHolder, isReservation⟩
    rw [Arbiter.dropHolder, JsMap.get_keep, isHeld]
    simp [Option.filter, isHolder, notHolder]
  held := by
    rintro other reservation key _ ⟨held, isHeld, isHolder, isReservation⟩
    exact ⟨held, (JsMap.get_of_get_keep isHeld).1, isHolder, isReservation⟩

/-- A key given back without its create having committed. -/
theorem ClaimsChange.freed {holder : String} {reservation : Nat} {key : String}
    (isHeld : node.arbiter.Holds holder reservation key)
    (uncommitted : { key, holder, reservation : Create } ∉ node.store) :
    ClaimsChange node (node.arbiter.freed holder false key) where
  settled := rfl
  seq := rfl
  forgottenThrough := rfl
  nextReservation := Nat.le_refl _
  since := fun _ => .inl rfl
  kept := by
    intro create isCreate held
    have notKey : create.key ≠ key := by
      intro isKey
      rw [isKey] at held
      obtain ⟨isHolder, isReservation⟩ := held.unique isHeld
      apply uncommitted
      rw [← isKey, ← isHolder, ← isReservation]
      exact isCreate
    obtain ⟨live, isLive, isHolder, isReservation⟩ := held
    refine ⟨live, ?_, isHolder, isReservation⟩
    rw [Arbiter.freed_live, JsMap.get_delete_other _ notKey]
    exact isLive
  held := by
    rintro other reservation' key' _ ⟨live, isLive, isHolder, isReservation⟩
    rw [Arbiter.freed_live] at isLive
    exact ⟨live, (JsMap.get_of_get_keep isLive).1, isHolder, isReservation⟩

/-- The numbers after the release of a committed create of a key. -/
def released (node : Node) (number : Numbering) (key : String) : Numbering :=
  fun create =>
    if create.key = key ∧ number create = none then
      some (node.arbiter.seq + 1)
    else
      number create

theorem released_cases {create : Create} {count : Nat}
    (isCount : released node number key create = some count) :
    number create = some count ∨ create.key = key ∧ count = node.arbiter.seq + 1 := by
  unfold released at isCount
  split at isCount
  · rename_i isKey
    rw [Option.some.injEq] at isCount
    exact .inr ⟨isKey.1, isCount.symm⟩
  · exact .inl isCount

/-- A key given back after its create has committed. -/
theorem Remembered.freed (remembered : Remembered node number) {holder : String}
    {reservation : Nat} {key : String} (isHeld : node.arbiter.Holds holder reservation key)
    (isSeen : Seen node holder reservation [key] []) :
    Remembered (node.withArbiter (node.arbiter.freed holder true key))
      (released node number key) where
  fresh := remembered.fresh
  counted := by
    intro create isCreate count isCount
    change 0 < count ∧ count ≤ node.arbiter.seq + 1
    rcases released_cases isCount with wasCount | ⟨_, isNew⟩
    · have isCounted := remembered.counted create isCreate count wasCount
      omega
    · omega
  pending := by
    intro create isCreate isPending
    unfold released at isPending
    split at isPending
    · cases isPending
    · rename_i notReleased
      have notKey : create.key ≠ key := fun isKey => notReleased ⟨isKey, isPending⟩
      obtain ⟨live, isLive, isHolder, isReservation⟩ := remembered.pending create isCreate isPending
      refine ⟨live, ?_, isHolder, isReservation⟩
      change (node.arbiter.freed holder true key).live.get create.key = some live
      rw [Arbiter.freed_live, JsMap.get_delete_other _ notKey]
      exact isLive
  remembered := by
    intro create isCreate count isCount
    change
      count ≤ node.arbiter.forgottenThrough ∨
        ∃ last,
          ((node.arbiter.settled.delete key).set key
              { seq := node.arbiter.seq + 1, holder }).get create.key =
              some last ∧
            count ≤ last.seq ∧
            (last.holder = front ∨ (last.holder, create) ∈ node.directories)
    by_cases isKey : create.key = key
    · right
      refine ⟨{ seq := node.arbiter.seq + 1, holder }, ?_, ?_, ?_⟩
      · rw [isKey, JsMap.get_set_self]
      · rcases released_cases isCount with wasCount | ⟨_, isNew⟩
        · have isCounted := remembered.counted create isCreate count wasCount
          simp only
          omega
        · simp only [isNew, Nat.le_refl]
      · rcases isSeen key List.mem_cons_self isHeld create isCreate isKey with
          isFront | isNone | isSeen
        · exact .inl isFront
        · cases isNone
        · exact .inr isSeen
    · rcases released_cases isCount with wasCount | ⟨isKey', _⟩
      · rcases remembered.remembered create isCreate count wasCount with
          isForgotten | ⟨last, isLast, isLow, isSeen⟩
        · exact .inl isForgotten
        · right
          refine ⟨last, ?_, isLow, isSeen⟩
          rw [JsMap.get_set_other _ isKey, JsMap.get_delete_other _ isKey]
          exact isLast
      · exact absurd isKey' isKey
  reached := by
    intro other
    have isReached := remembered.reached other
    constructor
    · exact Nat.le_succ_of_le isReached.le
    · intro create isCreate count isCount isLow
      change count ≤ node.arbiter.since other at isLow
      rcases released_cases isCount with wasCount | ⟨_, isNew⟩
      · exact isReached.seen create isCreate count wasCount isLow
      · have le := isReached.le
        omega

theorem Evolves.freed (node : Node) (number : Numbering) (holder : String) (key : String) :
    Evolves node number
      (node.withArbiter (node.arbiter.freed holder true key))
      (released node number key) where
  directories := fun _ isEntry => isEntry
  nextReservation := Nat.le_refl _
  seq := Nat.le_succ _
  numbers := by
    intro create isCreate count isCount isLow
    rcases released_cases isCount with wasCount | ⟨_, isNew⟩
    · exact ⟨isCreate, wasCount⟩
    · omega
  held := by
    rintro other reservation key' _ ⟨live, isLive, isHolder, isReservation⟩
    simp only [Node.withArbiter, Arbiter.freed_live] at isLive
    exact ⟨live, (JsMap.get_of_get_keep isLive).1, isHolder, isReservation⟩
  created := fun _ isCreate isNew => absurd isCreate isNew

/-- What is remembered may change, where the claims do not. -/
theorem Evolves.sameClaims (number : Numbering) (after : Arbiter)
    (sameLive : after.live = node.arbiter.live) (sameSeq : after.seq = node.arbiter.seq)
    (sameNext : after.nextReservation = node.arbiter.nextReservation) :
    Evolves node number (node.withArbiter after) number where
  directories := fun _ isEntry => isEntry
  nextReservation := Nat.le_of_eq sameNext.symm
  seq := Nat.le_of_eq sameSeq.symm
  numbers := fun _ isCreate _ isCount _ => ⟨isCreate, isCount⟩
  held := by
    rintro holder reservation key _ ⟨live, isLive, isHolder, isReservation⟩
    simp only [Node.withArbiter, sameLive] at isLive
    exact ⟨live, isLive, isHolder, isReservation⟩
  created := fun _ isCreate isNew => absurd isCreate isNew

/-- Forgetting the oldest create. -/
theorem Remembered.forgotten (remembered : Remembered node number) {was : Settled}
    (isOldest : node.arbiter.settled.oldest = some (key, was)) :
    Remembered
      (node.withArbiter
        { node.arbiter with
          forgottenThrough := max node.arbiter.forgottenThrough was.seq
          settled := node.arbiter.settled.delete key })
      number where
  fresh := remembered.fresh
  counted := remembered.counted
  pending := remembered.pending
  remembered := by
    intro create isCreate count isCount
    simp only [Node.withArbiter]
    rcases remembered.remembered create isCreate count isCount with
      isForgotten | ⟨last, isLast, isLow, isSeen⟩
    · exact .inl (Nat.le_trans isForgotten (Nat.le_max_left _ _))
    · by_cases isKey : create.key = key
      · left
        rw [isKey, JsMap.get_of_oldest isOldest, Option.some.injEq] at isLast
        subst isLast
        exact Nat.le_trans isLow (Nat.le_max_right _ _)
      · right
        refine ⟨last, ?_, isLow, isSeen⟩
        rw [JsMap.get_delete_other _ isKey]
        exact isLast
  reached := fun holder =>
    (Evolves.sameClaims number
      { node.arbiter with
        forgottenThrough := max node.arbiter.forgottenThrough was.seq
        settled := node.arbiter.settled.delete key }
      rfl rfl rfl).reached (remembered.reached holder)

/-- What an operation of the arbiter keeps. -/
def Keeps (node : Node) (number : Numbering) (after : Arbiter) : Prop :=
  ∃ number', Remembered (node.withArbiter after) number' ∧
    Evolves node number (node.withArbiter after) number'


/--
A release that says its create has committed, of a holder that has seen the
creates of its keys, or one by which none has committed.
-/
theorem Remembered.settle (remembered : Remembered node number) {holder : String}
    {reservation : Nat} {keys : List String} {committed : Bool}
    (isOld : reservation ≤ node.arbiter.nextReservation)
    (isSeen : committed = true → Seen node holder reservation keys [])
    (uncommitted : committed = false → ∀ key ∈ keys,
      { key, holder, reservation : Create } ∉ node.store) :
    Keeps node number (node.arbiter.settle holder reservation keys committed).2 := by
  refine
    @Arbiter.settle_induction holder reservation committed keys
      (Keeps node number) ?_ ?_ _
      ⟨number, remembered, Evolves.refl node number⟩
  · rintro key isKey arbiter ⟨number', remembered', evolves⟩ isHeld
    cases committed with
    | true =>
      have seenNow : Seen (node.withArbiter arbiter) holder reservation [key] [] := by
        intro other isOther
        rw [List.mem_singleton.mp isOther]
        exact evolves.seen isOld (isSeen rfl) key isKey
      exact
        ⟨released (node.withArbiter arbiter) number' key, remembered'.freed isHeld seenNow,
          evolves.trans (Evolves.freed _ _ _ _) rfl⟩
    | false =>
      have change :=
        @ClaimsChange.freed (node.withArbiter arbiter) holder reservation
          key isHeld (uncommitted rfl key isKey)
      exact ⟨number', change.remembered remembered', evolves.trans (change.evolves number') rfl⟩
  · rintro arbiter key was ⟨number', remembered', evolves⟩ isOldest
    exact
      ⟨number', remembered'.forgotten isOldest, evolves.trans
          (@Evolves.sameClaims (node.withArbiter arbiter) number'
            { arbiter with
              forgottenThrough := max arbiter.forgottenThrough was.seq
              settled := arbiter.settled.delete key }
            rfl rfl rfl)
          rfl⟩

/-- A holder that has caught up. -/
theorem Remembered.caughtUpTo (remembered : Remembered node number) {holder : String}
    {through : Nat} (isReached : Reached node number holder through) :
    Keeps node number (node.arbiter.caughtUpTo holder through) := by
  unfold Arbiter.caughtUpTo
  simp only
  split
  · have evolves :=
      Evolves.sameClaims number
        { node.arbiter with
          pulledThrough := node.arbiter.pulledThrough.set holder (min node.arbiter.seq through) }
        rfl rfl rfl
    refine ⟨number, ?_, evolves⟩
    exact
      { fresh := remembered.fresh
        counted := remembered.counted
        pending := remembered.pending
        remembered := remembered.remembered
        reached := by
          intro other
          by_cases isOther : other = holder
          · subst isOther
            simp only [Node.withArbiter, Arbiter.since, JsMap.get_set_self, Option.getD_some]
            constructor
            · exact Nat.min_le_left _ _
            · intro create isCreate count isCount isLow
              exact
                isReached.seen create isCreate count isCount
                  (Nat.le_trans isLow (Nat.min_le_right _ _))
          · have isReached' := evolves.reached (remembered.reached other)
            simpa only [Node.withArbiter, Arbiter.since,
              JsMap.get_set_other _ isOther] using isReached' }
  · exact ⟨number, remembered, Evolves.refl node number⟩

end

end IyaSts.DirectoryCreateArbiter
