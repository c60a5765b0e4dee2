import IyaSts.DirectoryCreateArbiterCatchesUp

namespace IyaSts.DirectoryCreateArbiter

/-!
# Every grant says when to catch up

In every run whose creates are released as committed while their claims are
live, whoever is granted a key whose create it has not seen is told to catch up.
-/

open List

section

variable {node : Node} {number : Numbering}

variable {now ttlMs : Int} {holder : String} {keys : List String} {after : Arbiter}

/-- A grant that says nothing is to a holder that has seen the creates. -/
theorem seen_of_granted (remembered : Remembered node number) (isUnexpired : Unexpired node now)
    (isGranted : node.arbiter.Granted now holder keys ttlMs none after) :
    ∀ create ∈ node.store, create.key ∈ keys → (holder, create) ∈ node.directories := by
  intro create isCreate isKey
  have needNot : node.arbiter.mustCatchUp holder keys = false := by
    have isNone := isGranted.catchUp
    unfold Arbiter.throughOf at isNone
    split at isNone
    · cases isNone
    · rename_i needNot
      simpa using needNot
  unfold Arbiter.mustCatchUp at needNot
  simp only at needNot
  split at needNot
  · cases needNot
  rename_i notForgotten
  have isReached := remembered.reached holder
  cases isCount : number create with
  | none =>
    -- Its claim would have had to run out for the key to be free.
    obtain ⟨held, isHeld, isHolder, isReservation⟩ := remembered.pending create isCreate isCount
    have isLive := isUnexpired create isCreate held isHeld isHolder isReservation
    have isOver := isGranted.free create.key isKey held isHeld
    exact absurd isLive (Int.not_lt.mpr isOver)
  | some count =>
    rcases remembered.remembered create isCreate count isCount with
      isForgotten | ⟨last, isLast, isLow, isSeen⟩
    · exact isReached.seen create isCreate count isCount (by omega)
    · have notNeeded := any_eq_false.mp needNot create.key isKey
      rw [isLast] at notNeeded
      simp only [Bool.and_eq_true, Bool.or_eq_true, decide_eq_true_eq,
        not_and_or, not_or, not_not] at notNeeded
      rcases notNeeded with isOld | ⟨notFront, isHolder⟩
      · exact isReached.seen create isCreate count isCount (by omega)
      · rw [isHolder] at isSeen
        exact isSeen.resolve_left notFront

/-- What a grant tells its holder. -/
theorem told_of_decision (remembered : Remembered node number)
    (isUnexpired : Unexpired node now) {reservation : Nat} {through : Option Nat}
    (decision :
      node.arbiter.Decision now holder keys ttlMs
        (.granted reservation through) after) :
    Told (node.withArbiter after) holder reservation keys through := by
  cases decision with
  | granted isGranted =>
    refine ⟨Nat.le_of_eq isGranted.nextReservation.symm, ?_⟩
    cases through with
    | none =>
      intro key isKey _ create isCreate sameKey
      rw [← sameKey] at isKey
      exact .inr (.inr (seen_of_granted remembered isUnexpired isGranted create isCreate isKey))
    | some through =>
      have isThrough := isGranted.catchUp
      unfold Arbiter.throughOf at isThrough
      split at isThrough
      · rw [Option.some.injEq] at isThrough
        simp only [Node.withArbiter, isThrough, isGranted.seq, Nat.le_refl]
      · cases isThrough
  | refused notGranted _ => exact absurd rfl (notGranted _ _)

end

/-- The grants that are observed after a decision. -/
theorem missesNone_observe {world : World} {number : Numbering}
    (missesNone : MissesNone world) (remembered : Remembered world.toNode number)
    (isUnexpired : Unexpired world.toNode world.now) {holder : String}
    {keys : List String} {ttlMs : Int} {answer : Answer} {after : Arbiter}
    (decision : world.arbiter.Decision world.now holder keys ttlMs answer after) :
    MissesNone (world.observe holder keys ttlMs answer) := by
  intro grant isGrant someUnseen
  cases decision with
  | @granted through _ isGranted =>
    rw [World.observe] at isGrant
    rcases mem_append.mp isGrant with isOld | isNew
    · exact missesNone grant isOld someUnseen
    · rw [mem_singleton.mp isNew] at someUnseen ⊢
      cases through with
      | some through => rfl
      | none =>
        exfalso
        apply someUnseen
        rw [filter_eq_nil_iff]
        intro create isCreate
        simp only [Bool.and_eq_true, decide_eq_true_eq, not_and, not_not]
        exact seen_of_granted remembered isUnexpired isGranted create isCreate
  | refused notGranted isSwept =>
    unfold World.observe at isGrant
    split at isGrant
    · exact absurd rfl (notGranted _ _)
    · exact missesNone grant isGrant someUnseen

/-! ## The whole state -/

/-- All that is in flight or held is sound, by the numbers of the releases. -/
structure SoundBy (world : World) (number : Numbering) : Prop where
  remembered : Remembered world.toNode number
  messages : ∀ sent ∈ world.toFront, MessageSound world.toNode number sent
  replies : ∀ sent ∈ world.toWorkers, ReplySound world.toNode sent
  holdings : ∀ holding ∈ world.holdings, HoldingSound world.toNode number holding
  missesNone : MissesNone world

/-- So it is by some numbers. -/
def Sound (world : World) : Prop := ∃ number, SoundBy world number

section

variable {world world' : World} {number number' : Numbering}

/-- What is new in a later state has to be sound; the rest stays so. -/
theorem SoundBy.next (sound : SoundBy world number) (remembered : Remembered world'.toNode number')
    (evolves : Evolves world.toNode number world'.toNode number')
    (messages : ∀ sent ∈ world'.toFront,
      sent ∈ world.toFront ∨ MessageSound world'.toNode number' sent)
    (replies : ∀ sent ∈ world'.toWorkers, sent ∈ world.toWorkers ∨ ReplySound world'.toNode sent)
    (holdings : ∀ holding ∈ world'.holdings,
      holding ∈ world.holdings ∨ HoldingSound world'.toNode number' holding)
    (missesNone : MissesNone world') :
    SoundBy world' number' := by
  refine ⟨remembered, ?_, ?_, ?_, missesNone⟩
  · intro sent isSent
    rcases messages sent isSent with wasSent | isSound
    · exact (sound.messages sent wasSent).evolve evolves
    · exact isSound
  · intro sent isSent
    rcases replies sent isSent with wasSent | isSound
    · intro reservation through isGranted
      exact (sound.replies sent wasSent reservation through isGranted).evolve evolves
    · exact isSound
  · intro holding isHolding
    rcases holdings holding isHolding with wasHolding | isSound
    · exact (sound.holdings holding wasHolding).evolve evolves
    · exact isSound

theorem SoundBy.later (sound : SoundBy world number) (remembered : Remembered world'.toNode number')
    (evolves : Evolves world.toNode number world'.toNode number')
    (messages : ∀ sent ∈ world'.toFront,
      sent ∈ world.toFront ∨ MessageSound world'.toNode number' sent)
    (replies : ∀ sent ∈ world'.toWorkers, sent ∈ world.toWorkers ∨ ReplySound world'.toNode sent)
    (holdings : ∀ holding ∈ world'.holdings,
      holding ∈ world.holdings ∨ HoldingSound world'.toNode number' holding)
    (missesNone : MissesNone world') :
    Sound world' :=
  ⟨number', sound.next remembered evolves messages replies holdings missesNone⟩

end

/-- The claims that the table reads as unexpired. -/
theorem unexpired_iff {world : World} (isUnexpired : unexpired world = true) :
    Unexpired world.toNode world.now := by
  intro create isCreate held isHeld isHolder isReservation
  have isEntry : (create.key, held) ∈ world.arbiter.live.entries := by
    obtain ⟨before, after, shape, _⟩ := lookup_eq_some_iff.mp isHeld
    rw [shape]
    exact mem_append_right _ mem_cons_self
  have isChecked := all_eq_true.mp isUnexpired _ isEntry
  rw [Bool.or_eq_true, decide_eq_true_eq] at isChecked
  rcases isChecked with notGuarded | isLive
  · have isGuarded : guards world create.key held = true := by
      rw [guards, decide_eq_true_eq, isHolder, isReservation]
      exact isCreate
    rw [isGuarded] at notGuarded
    cases notGuarded
  · exact isLive

/-- One more answer in flight. -/
theorem replies_concat {node : Node} {replies : List (String × Reply)}
    {sent : String × Reply} (isSound : ReplySound node sent) :
    ∀ other ∈ replies ++ [sent], other ∈ replies ∨ ReplySound node other := by
  intro other isOther
  rcases mem_append.mp isOther with isOld | isNew
  · exact .inl isOld
  · exact .inr (mem_singleton.mp isNew ▸ isSound)

/-- One more message in flight. -/
theorem messages_concat {node : Node} {number : Numbering}
    {messages : List (String × Message)} {sent : String × Message}
    (isSound : MessageSound node number sent) :
    ∀ other ∈ messages ++ [sent], other ∈ messages ∨ MessageSound node number other := by
  intro other isOther
  rcases mem_append.mp isOther with isOld | isNew
  · exact .inl isOld
  · exact .inr (mem_singleton.mp isNew ▸ isSound)

/-! ## Steps -/

section

variable {world : World} {number : Numbering}

variable {keys : List String}

/-- A question of the front process, or of a worker. -/
theorem SoundBy.ask (sound : SoundBy world number) {party : Party} {ttlMs : Int} {sent : Bool}
    (isCareful : careful world (.ask party keys ttlMs sent) = true) :
    Sound (stepAsk world party keys ttlMs sent) := by
  cases party with
  | front =>
    have isUnexpired := unexpired_iff isCareful
    have decision := world.arbiter.decide_decision world.now front keys ttlMs
    unfold stepAsk
    generalize world.arbiter.decide world.now front keys ttlMs = decided at *
    obtain ⟨answer, after⟩ := decided
    have change := @ClaimsChange.decision world.toNode _ isUnexpired _ _ _ _ _ decision
    have missesNone := missesNone_observe sound.missesNone sound.remembered isUnexpired decision
    have remembered := change.remembered sound.remembered
    have evolves := change.evolves number
    cases answer with
    | granted reservation through =>
      have isTold := told_of_decision sound.remembered isUnexpired decision
      refine sound.later remembered evolves (fun _ => .inl) (fun _ => .inl) ?_ missesNone
      intro holding isHolding
      rcases mem_append.mp isHolding with isOld | isNew
      · exact .inl isOld
      · right
        rw [mem_singleton.mp isNew]
        exact
          { told := isTold
            pulled := fun isPulled => nomatch isPulled
            pulling := fun _ isPulling => nomatch isPulling }
    | used index =>
      exact
        sound.later remembered evolves (fun _ => .inl) (fun _ => .inl) (fun _ => .inl) missesNone
    | store code why =>
      exact
        sound.later remembered evolves (fun _ => .inl) (fun _ => .inl) (fun _ => .inl) missesNone
  | worker pid =>
    unfold stepAsk Worker.ask
    simp only
    split
    · exact ⟨number, sound⟩
    · cases sent with
      | false =>
        exact
          sound.later sound.remembered (Evolves.refl _ _) (fun _ => .inl)
            (fun _ => .inl) (fun _ => .inl) sound.missesNone
      | true =>
        exact
          sound.later sound.remembered (Evolves.refl _ _)
            (messages_concat trivial) (fun _ => .inl) (fun _ => .inl)
            sound.missesNone

/-- A claim that arrives at the front process. -/
theorem SoundBy.receiveClaim (sound : SoundBy world number)
    (isUnexpired : Unexpired world.toNode world.now) (pid : String) (id : Nat)
    (keys : List String) (ttlMs : Int) (delivered : Bool) :
    Sound (stepReceiveClaim world pid id keys ttlMs delivered) := by
  obtain ⟨decision, sameKeys⟩ :=
    world.arbiter.receiveClaim_decision world.now (holderOf pid) id keys ttlMs
  unfold stepReceiveClaim
  generalize world.arbiter.receiveClaim world.now (holderOf pid) id keys ttlMs = received at *
  obtain ⟨⟨id', named, answer⟩, after⟩ := received
  simp only at decision sameKeys ⊢
  have change := @ClaimsChange.decision world.toNode _ isUnexpired _ _ _ _ _ decision
  have missesNone := missesNone_observe sound.missesNone sound.remembered isUnexpired decision
  have remembered := change.remembered sound.remembered
  have evolves := change.evolves number
  cases answer with
  | granted reservation through =>
    have isTold := told_of_decision sound.remembered isUnexpired decision
    rw [sameKeys reservation through rfl]
    cases delivered with
    | true =>
      refine sound.later remembered evolves (fun _ => .inl)
        (replies_concat ?_) (fun _ => .inl) missesNone
      intro reservation' through' isGranted
      cases isGranted
      exact isTold
    | false =>
      have isFresh : ∀ key ∈ keys,
          { key, holder := holderOf pid, reservation : Create } ∉ world.store := by
        intro key _ isCreate
        have isOld := sound.remembered.fresh _ isCreate
        cases decision with
        | granted _ => exact absurd isOld (Nat.not_succ_le_self _)
        | refused notGranted _ => exact absurd rfl (notGranted _ _)
      obtain ⟨number', remembered', evolves'⟩ :=
        @Remembered.settle _ number remembered (holderOf pid) reservation
          keys false isTold.1 (fun isTrue => nomatch isTrue)
          (fun _ => isFresh)
      exact
        sound.later remembered' (evolves.trans evolves' rfl)
          (fun _ => .inl) (fun _ => .inl) (fun _ => .inl) missesNone
  | used index =>
    cases delivered with
    | true =>
      exact
        sound.later remembered evolves (fun _ => .inl)
          (replies_concat (fun _ _ isGranted => nomatch isGranted))
          (fun _ => .inl) missesNone
    | false =>
      exact
        sound.later remembered evolves (fun _ => .inl) (fun _ => .inl) (fun _ => .inl) missesNone
  | store code why =>
    cases delivered with
    | true =>
      exact
        sound.later remembered evolves (fun _ => .inl)
          (replies_concat (fun _ _ isGranted => nomatch isGranted))
          (fun _ => .inl) missesNone
    | false =>
      exact
        sound.later remembered evolves (fun _ => .inl) (fun _ => .inl) (fun _ => .inl) missesNone

/-- A release that arrives at the front process. -/
theorem SoundBy.receiveRelease (sound : SoundBy world number) {pid : String}
    {reservation : Nat} {committed : Bool}
    (message :
      MessageSound world.toNode number
        (pid, .release reservation keys committed))
    (isUncommitted : committed = false → uncommitted world (holderOf pid) reservation keys = true) :
    Sound (stepReceiveRelease world pid reservation keys committed) := by
  unfold stepReceiveRelease Arbiter.receiveRelease
  cases isNamed : keysOf keys with
  | none => exact ⟨number, sound⟩
  | some named =>
    rw [Arbiter.keysOf_eq_some isNamed]
    have noneCommitted : committed = false → ∀ key ∈ keys,
        { key, holder := holderOf pid, reservation : Create } ∉ world.store := by
      intro isFalse key isKey
      have isChecked := all_eq_true.mp (isUncommitted isFalse) key isKey
      simpa using isChecked
    obtain ⟨number', remembered', evolves'⟩ :=
      sound.remembered.settle message.1 message.2 noneCommitted
    simp only
    generalize world.arbiter.settle (holderOf pid) reservation keys committed = settled at *
    exact
      sound.later remembered' evolves' (fun _ => .inl) (fun _ => .inl)
        (fun _ => .inl) sound.missesNone

/-- A message that arrives at the front process. -/
theorem SoundBy.receive (sound : SoundBy world number) {index : Nat} {delivered : Bool}
    (isCareful : careful world (.receive index delivered) = true) :
    Sound (stepReceive world index delivered) := by
  unfold stepReceive
  cases isMessage : world.toFront[index]? with
  | none => exact ⟨number, sound⟩
  | some sent =>
    obtain ⟨pid, message⟩ := sent
    have isSound := sound.messages _ (mem_of_getElem? isMessage)
    have taken :
        SoundBy
          { world with toFront := world.toFront.eraseIdx index } number :=
      { remembered := sound.remembered
        messages := fun sent isSent => sound.messages sent (mem_of_mem_eraseIdx isSent)
        replies := sound.replies
        holdings := sound.holdings
        missesNone := sound.missesNone }
    rw [careful, isMessage] at isCareful
    cases message with
    | claim id keys ttlMs =>
      exact taken.receiveClaim (unexpired_iff isCareful) pid id keys ttlMs delivered
    | release reservation keys committed =>
      refine taken.receiveRelease isSound ?_
      rintro rfl
      exact isCareful
    | caughtUp through =>
      obtain ⟨number', remembered', evolves'⟩ := taken.remembered.caughtUpTo isSound
      exact
        taken.later remembered' evolves' (fun _ => .inl) (fun _ => .inl)
          (fun _ => .inl) sound.missesNone

/-- An answer that arrives at a worker. -/
theorem SoundBy.answered (sound : SoundBy world number) (index : Nat) :
    Sound (stepAnswered world index) := by
  unfold stepAnswered
  cases isReply : world.toWorkers[index]? with
  | none => exact ⟨number, sound⟩
  | some sent =>
    obtain ⟨pid, reply⟩ := sent
    have isSound := sound.replies _ (mem_of_getElem? isReply)
    have stillReplies : ∀ sent ∈ world.toWorkers.eraseIdx index,
        sent ∈ world.toWorkers ∨ ReplySound world.toNode sent :=
      fun sent isSent => .inl (mem_of_mem_eraseIdx isSent)
    obtain ⟨id, keys, answer⟩ := reply
    unfold Worker.answered
    simp only
    split
    · exact
        sound.later sound.remembered (Evolves.refl _ _) (fun _ => .inl)
          stillReplies (fun _ => .inl) sound.missesNone
    · by_cases isAsking : id ∈ (world.workers pid).asking
      · simp only [if_pos isAsking]
        cases answer with
        | granted reservation through =>
          refine
            sound.later sound.remembered (Evolves.refl _ _)
              (fun _ => .inl) stillReplies ?_ sound.missesNone
          intro holding isHolding
          rcases mem_append.mp isHolding with isOld | isNew
          · exact .inl isOld
          · right
            rw [mem_singleton.mp isNew]
            exact
              { told := isSound reservation through rfl
                pulled := fun isPulled => nomatch isPulled
                pulling := fun _ isPulling => nomatch isPulling }
        | used index =>
          exact
            sound.later sound.remembered (Evolves.refl _ _)
              (fun _ => .inl) stillReplies (fun _ => .inl)
              sound.missesNone
        | store code why =>
          exact
            sound.later sound.remembered (Evolves.refl _ _)
              (fun _ => .inl) stillReplies (fun _ => .inl)
              sound.missesNone
      · simp only [if_neg isAsking]
        cases answer with
        | granted reservation through =>
          have isTold := isSound reservation through rfl
          exact
            sound.later sound.remembered (Evolves.refl _ _)
              (messages_concat ⟨isTold.1, fun isTrue => nomatch isTrue⟩)
              stillReplies (fun _ => .inl) sound.missesNone
        | used index =>
          exact
            sound.later sound.remembered (Evolves.refl _ _)
              (fun _ => .inl) stillReplies (fun _ => .inl)
              sound.missesNone
        | store code why =>
          exact
            sound.later sound.remembered (Evolves.refl _ _)
              (fun _ => .inl) stillReplies (fun _ => .inl)
              sound.missesNone

/-- A pull that begins has before it all that the store holds. -/
theorem SoundBy.startPull (sound : SoundBy world number) (index : Nat) :
    Sound (stepStartPull world index) := by
  unfold stepStartPull
  cases isHolding : world.holdings[index]? with
  | none => exact ⟨number, sound⟩
  | some holding =>
    have isSound := sound.holdings _ (mem_of_getElem? isHolding)
    simp only
    split
    · refine
        sound.later sound.remembered (Evolves.refl _ _) (fun _ => .inl)
          (fun _ => .inl) ?_ sound.missesNone
      intro other isOther
      rcases mem_or_eq_of_mem_set isOther with wasHeld | rfl
      · exact .inl wasHeld
      · right
        refine
          { told := isSound.told
            pulled := isSound.pulled
            pulling := ?_ }
        rintro creates ⟨⟩
        exact
          ⟨fun _ _ _ create isCreate _ => .inr (.inl isCreate),
            fun _ _ create isCreate _ _ _ => isCreate⟩
    · exact ⟨number, sound⟩

end

section

variable {node : Node} {number : Numbering}

/-- A node whose directories hold more. -/
def Node.grown (node : Node) (entries : List (String × Create)) : Node :=
  { node with directories := node.directories ++ entries }

theorem Evolves.grown (node : Node) (number : Numbering) (entries : List (String × Create)) :
    Evolves node number (node.grown entries) number where
  directories := fun _ isEntry => mem_append_left _ isEntry
  nextReservation := Nat.le_refl _
  seq := Nat.le_refl _
  numbers := fun _ isCreate _ isCount _ => ⟨isCreate, isCount⟩
  held := fun _ _ _ _ isHeld => isHeld
  created := fun _ isCreate isNew => absurd isCreate isNew

theorem Remembered.grown (remembered : Remembered node number) (entries : List (String × Create)) :
    Remembered (node.grown entries) number where
  fresh := remembered.fresh
  counted := remembered.counted
  pending := remembered.pending
  remembered := by
    intro create isCreate count isCount
    rcases remembered.remembered create isCreate count isCount with
      isForgotten | ⟨last, isLast, isLow, isFront | isSeen⟩
    · exact .inl isForgotten
    · exact .inr ⟨last, isLast, isLow, .inl isFront⟩
    · exact .inr ⟨last, isLast, isLow, .inr (mem_append_left _ isSeen)⟩
  reached := fun holder => (Evolves.grown node number entries).reached (remembered.reached holder)

/-- What a holder has seen once its pull has finished. -/
theorem HoldingSound.pull {holding : Holding} (sound : HoldingSound node number holding)
    {through : Nat} {creates : List Create} (isThrough : holding.through = some through)
    (isPulling : holding.pulling = some creates) :
    HoldingSound
        (node.grown
          (creates.map fun create => (holding.party.holder, create)))
        number { holding with pulled := true } ∧
      Reached
        (node.grown
          (creates.map fun create => (holding.party.holder, create)))
        number holding.party.holder through := by
  obtain ⟨isSeen, covers⟩ := sound.pulling creates isPulling
  have evolves :=
    Evolves.grown node number (creates.map fun create => (holding.party.holder, create))
  have isGrown := sound.evolve evolves
  have inDirectory (create : Create) (isPulled : create ∈ creates) :
      (holding.party.holder, create) ∈
        (node.grown
          (creates.map fun create =>
            (holding.party.holder, create))).directories :=
    mem_append_right _ (mem_map.mpr ⟨create, isPulled, rfl⟩)
  constructor
  · refine
      { told := isGrown.told
        pulled := ?_
        pulling := isGrown.pulling }
    intro _ key isKey isHeld create isCreate sameKey
    rcases isSeen key isKey isHeld create isCreate sameKey with
      isFront | isPulled | isSeen
    · exact .inl isFront
    · exact .inr (.inr (inDirectory create isPulled))
    · exact .inr (.inr (mem_append_left _ isSeen))
  · constructor
    · have isTold := sound.told.2
      rw [isThrough] at isTold
      exact isTold
    · intro create isCreate count isCount isLow
      exact inDirectory create (covers through isThrough create isCreate count isCount isLow)

/-- The numbers after a create commits that was not in the store. -/
def committed (node : Node) (number : Numbering) (create : Create) : Numbering :=
  fun other => if other = create ∧ create ∉ node.store then none else number other

variable {create other : Create}

theorem committed_of_mem (isOther : other ∈ node.store) :
    committed node number create other = number other := by
  unfold committed
  rw [if_neg]
  rintro ⟨rfl, isNew⟩
  exact isNew isOther

theorem committed_some {count : Nat} (isCreate : other ∈ node.store ++ [create])
    (isCount : committed node number create other = some count) :
    other ∈ node.store ∧ number other = some count := by
  unfold committed at isCount
  split at isCount
  · cases isCount
  · rename_i notNew
    refine ⟨?_, isCount⟩
    rcases mem_append.mp isCreate with isOld | isLast
    · exact isOld
    · rw [mem_singleton] at isLast
      subst isLast
      by_contra isNew
      exact notNew ⟨rfl, isNew⟩

/-- A create commits under its holder's claim, and its holder has it. -/
theorem Remembered.commit (remembered : Remembered node number) {create : Create}
    (isFresh : create.reservation ≤ node.arbiter.nextReservation)
    (isHeld : node.arbiter.Holds create.holder create.reservation create.key)
    {directories : List (String × Create)}
    (areKept : ∀ entry ∈ node.directories, entry ∈ directories)
    (isOwn : create.holder = front ∨ (create.holder, create) ∈ directories) :
    Remembered { node with store := node.store ++ [create], directories }
        (committed node number create) ∧
      Evolves node number
        { node with store := node.store ++ [create], directories }
        (committed node number create) := by
  have evolves : Evolves node number
      { node with store := node.store ++ [create], directories }
      (committed node number create) :=
    { directories := areKept
      nextReservation := Nat.le_refl _
      seq := Nat.le_refl _
      numbers := fun _ isCreate _ isCount _ => committed_some isCreate isCount
      held := fun _ _ _ _ isHeld => isHeld
      created := by
        intro other isOther isNew
        rcases mem_append.mp isOther with isOld | isLast
        · exact absurd isOld isNew
        · rw [mem_singleton.mp isLast]
          exact ⟨isHeld, isOwn⟩ }
  refine ⟨?_, evolves⟩
  exact
    { fresh := by
        intro other isOther
        rcases mem_append.mp isOther with isOld | isLast
        · exact remembered.fresh other isOld
        · rw [mem_singleton.mp isLast]
          exact isFresh
      counted := by
        intro other isOther count isCount
        obtain ⟨isOld, wasCount⟩ := committed_some isOther isCount
        exact remembered.counted other isOld count wasCount
      pending := by
        intro other isOther isPending
        rcases mem_append.mp isOther with isOld | isLast
        · rw [committed_of_mem isOld] at isPending
          exact remembered.pending other isOld isPending
        · rw [mem_singleton.mp isLast]
          exact isHeld
      remembered := by
        intro other isOther count isCount
        obtain ⟨isOld, wasCount⟩ := committed_some isOther isCount
        rcases remembered.remembered other isOld count wasCount with
          isForgotten | ⟨last, isLast, isLow, isFront | isSeen⟩
        · exact .inl isForgotten
        · exact .inr ⟨last, isLast, isLow, .inl isFront⟩
        · exact .inr ⟨last, isLast, isLow, .inr (areKept _ isSeen)⟩
      reached := fun holder => evolves.reached (remembered.reached holder) }

end

section

variable {world : World} {number : Numbering}

/-- The front process is told of a holder that has caught up. -/
theorem SoundBy.tellCaughtUp (sound : SoundBy world number) {party : Party}
    {through : Nat} (isReached : Reached world.toNode number party.holder through) :
    Sound (tellCaughtUp world party through) := by
  cases party with
  | front =>
    obtain ⟨number', remembered', evolves'⟩ := sound.remembered.caughtUpTo isReached
    exact
      sound.later remembered' evolves' (fun _ => .inl) (fun _ => .inl)
        (fun _ => .inl) sound.missesNone
  | worker pid =>
    exact
      sound.later sound.remembered (Evolves.refl _ _)
        (messages_concat isReached) (fun _ => .inl) (fun _ => .inl)
        sound.missesNone

/-- A pull that has finished. -/
theorem SoundBy.finishPull (sound : SoundBy world number) (index : Nat) :
    Sound (stepFinishPull world index) := by
  unfold stepFinishPull
  cases isHolding : world.holdings[index]? with
  | none => exact ⟨number, sound⟩
  | some holding =>
    have isSound := sound.holdings _ (mem_of_getElem? isHolding)
    simp only
    split
    · rename_i through creates isThrough isPulling
      obtain ⟨isPulled, isReached⟩ := isSound.pull isThrough isPulling
      have pulled :
          SoundBy
            { world with
              directories := world.directories ++
                creates.map fun create => (holding.party.holder, create)
              holdings := world.holdings.set index { holding with pulled := true } }
            number := by
        refine
          sound.next (sound.remembered.grown _) (Evolves.grown _ _ _)
            (fun _ => .inl) (fun _ => .inl) ?_ sound.missesNone
        intro other isOther
        rcases mem_or_eq_of_mem_set isOther with wasHeld | rfl
        · exact .inl wasHeld
        · exact .inr isPulled
      exact pulled.tellCaughtUp isReached
    · exact ⟨number, sound⟩

/-- A create that commits. -/
theorem SoundBy.commit (sound : SoundBy world number) {index : Nat} {key : String}
    (isOutlived : outlived world (.commit index key) = true) :
    Sound (stepCommit world index key) := by
  unfold stepCommit
  cases isHolding : world.holdings[index]? with
  | none => exact ⟨number, sound⟩
  | some holding =>
    have isSound := sound.holdings _ (mem_of_getElem? isHolding)
    rw [outlived, isHolding] at isOutlived
    have isHeld : world.arbiter.Holds holding.party.holder holding.reservation key := by
      simp only [holds] at isOutlived
      split at isOutlived
      · cases isOutlived
      · rename_i held isHeld
        rw [Bool.and_eq_true, Bool.and_eq_true, decide_eq_true_eq, decide_eq_true_eq] at isOutlived
        exact ⟨held, isHeld, isOutlived.1.1, isOutlived.1.2⟩
    simp only
    split
    · cases isParty : holding.party with
      | front =>
        rw [isParty] at isHeld
        obtain ⟨remembered, evolves⟩ :=
          @Remembered.commit world.toNode number sound.remembered
            { key, holder := front, reservation := holding.reservation }
            isSound.told.1 isHeld world.directories
            (fun _ isEntry => isEntry) (.inl rfl)
        exact
          sound.later remembered evolves (fun _ => .inl) (fun _ => .inl)
            (fun _ => .inl) sound.missesNone
      | worker pid =>
        rw [isParty] at isHeld
        obtain ⟨remembered, evolves⟩ :=
          @Remembered.commit world.toNode number sound.remembered
            { key, holder := holderOf pid,
              reservation := holding.reservation }
            isSound.told.1 isHeld
            (world.directories ++
              [(holderOf pid,
                { key, holder := holderOf pid,
                  reservation := holding.reservation })])
            (fun _ isEntry => mem_append_left _ isEntry)
            (.inr (mem_append_right _ (mem_singleton_self _)))
        exact
          sound.later remembered evolves (fun _ => .inl) (fun _ => .inl)
            (fun _ => .inl) sound.missesNone
    · exact ⟨number, sound⟩

/-- A claim that its holder gives back. -/
theorem SoundBy.give (sound : SoundBy world number) {index : Nat} {committed : Bool}
    (isCareful : careful world (.give index committed) = true) :
    Sound (stepGive world index committed) := by
  unfold stepGive
  cases isHolding : world.holdings[index]? with
  | none => exact ⟨number, sound⟩
  | some holding =>
    have isSound := sound.holdings _ (mem_of_getElem? isHolding)
    have stillHoldings : ∀ other ∈ world.holdings.eraseIdx index,
        other ∈ world.holdings :=
      fun _ isOther => mem_of_mem_eraseIdx isOther
    rw [careful, isHolding] at isCareful
    simp only at isCareful
    have isSeen : committed = true →
        Seen world.toNode holding.party.holder holding.reservation holding.keys [] := by
      intro isCommitted
      rw [if_pos isCommitted] at isCareful
      exact isSound.seen isCareful
    obtain ⟨party, reservation, keys, told, pulling, pulled⟩ := holding
    cases party with
    | front =>
      have noneCommitted : committed = false → ∀ key ∈ keys,
          { key, holder := front, reservation : Create } ∉ world.store := by
        rintro rfl key isKey
        have isUncommitted : uncommitted world front reservation keys = true := by
          simpa using isCareful
        have isChecked := all_eq_true.mp isUncommitted key isKey
        simpa using isChecked
      obtain ⟨number', remembered', evolves'⟩ :=
        sound.remembered.settle isSound.told.1 isSeen noneCommitted
      exact
        sound.later remembered' evolves' (fun _ => .inl) (fun _ => .inl)
          (fun other isOther => .inl (stillHoldings other isOther))
          sound.missesNone
    | worker pid =>
      exact
        sound.later sound.remembered (Evolves.refl _ _)
          (messages_concat ⟨isSound.told.1, isSeen⟩) (fun _ => .inl)
          (fun other isOther => .inl (stillHoldings other isOther))
          sound.missesNone

/-- A worker that exits. -/
theorem SoundBy.exit (sound : SoundBy world number) {pid : String}
    (isCareful : careful world (.exit pid) = true) :
    Sound (stepExit world pid) := by
  have noneCommitted : ∀ create ∈ world.store,
      create.holder = holderOf pid →
        ¬world.arbiter.Holds create.holder create.reservation create.key := by
    rintro create isCreate isHolder ⟨held, isHeld, sameHolder, sameReservation⟩
    have isEntry : (create.key, held) ∈ world.arbiter.live.entries := by
      obtain ⟨before, after, shape, _⟩ := lookup_eq_some_iff.mp isHeld
      rw [shape]
      exact mem_append_right _ mem_cons_self
    have isChecked := all_eq_true.mp isCareful _ isEntry
    have isGuarded : guards world create.key held = true := by
      rw [guards, decide_eq_true_eq, sameHolder, sameReservation]
      exact isCreate
    rw [Bool.or_eq_true, decide_eq_true_eq, isGuarded] at isChecked
    rcases isChecked with notHolder | isFalse
    · exact notHolder (sameHolder.trans isHolder)
    · cases isFalse
  have change := @ClaimsChange.dropHolder world.toNode _ noneCommitted
  exact
    sound.later (change.remembered sound.remembered) (change.evolves number)
      (fun _ => .inl) (fun _ => .inl)
      (fun _ isHolding => .inl (mem_filter.mp isHolding).1)
      sound.missesNone

/-- A step that passes both tests. -/
theorem Sound.step (sound : Sound world) {event : Event} (isOutlived : outlived world event = true)
    (isCareful : careful world event = true) :
    Sound (step world event) := by
  obtain ⟨number, sound⟩ := sound
  cases event with
  | tick later =>
    exact
      sound.later sound.remembered (Evolves.refl _ _) (fun _ => .inl)
        (fun _ => .inl) (fun _ => .inl) sound.missesNone
  | ask party keys ttlMs sent => exact sound.ask isCareful
  | receive index delivered => exact sound.receive isCareful
  | loseMessage index =>
    exact
      sound.later sound.remembered (Evolves.refl _ _)
        (fun _ isSent => .inl (mem_of_mem_eraseIdx isSent))
        (fun _ => .inl) (fun _ => .inl) sound.missesNone
  | answered index => exact sound.answered index
  | loseReply index =>
    exact
      sound.later sound.remembered (Evolves.refl _ _) (fun _ => .inl)
        (fun _ isSent => .inl (mem_of_mem_eraseIdx isSent))
        (fun _ => .inl) sound.missesNone
  | giveUp pid id =>
    exact
      sound.later sound.remembered (Evolves.refl _ _) (fun _ => .inl)
        (fun _ => .inl) (fun _ => .inl) sound.missesNone
  | startPull index => exact sound.startPull index
  | finishPull index => exact sound.finishPull index
  | commit index key => exact sound.commit isOutlived
  | give index committed => exact sound.give isCareful
  | exit pid => exact sound.exit isCareful
  | follow holder index =>
    simp only [DirectoryCreateArbiter.step]
    split
    · exact ⟨number, sound⟩
    · exact
        sound.later (sound.remembered.grown _) (Evolves.grown _ _ _)
          (fun _ => .inl) (fun _ => .inl) (fun _ => .inl)
          sound.missesNone

/-- A run whose steps pass both tests. -/
theorem Sound.run (sound : Sound world) {events : List Event}
    (isOutlived : Every outlived world events) (isCareful : Every careful world events) :
    Sound (events.foldl DirectoryCreateArbiter.step world) := by
  induction events generalizing world with
  | nil => exact sound
  | cons event rest ih => exact ih (sound.step isOutlived.1 isCareful.1) isOutlived.2 isCareful.2

end

theorem sound_start : Sound .start := by
  refine ⟨fun _ => none, ?_, ?_, ?_, ?_, ?_⟩
  · exact
      { fresh := fun _ isNone => nomatch isNone
        counted := fun _ isNone => nomatch isNone
        pending := fun _ isNone => nomatch isNone
        remembered := fun _ isNone => nomatch isNone
        reached := fun _ =>
          { le := Nat.le_refl 0
            seen := fun _ isNone => nomatch isNone } }
  · exact fun _ isNone => nomatch isNone
  · exact fun _ isNone => nomatch isNone
  · exact fun _ isNone => nomatch isNone
  · exact fun _ isNone => nomatch isNone

/--
In no run are two grants for one key out at a time.  In a run whose steps pass
both tests, whoever has not seen a create of a key is told to catch up.
-/
theorem grants_sound (events : List Event) :
    NoOverlap (run events) ∧
      (Every outlived .start events → Every careful .start events → MissesNone (run events)) := by
  refine ⟨run_noOverlap events, fun isOutlived isCareful => ?_⟩
  obtain ⟨_, sound⟩ := sound_start.run isOutlived isCareful
  exact sound.missesNone

/-- Whether every step passes a test can be evaluated. -/
def Every.decide (test : World → Event → Bool) :
    (world : World) → (events : List Event) → Decidable (Every test world events)
  | _, [] => isTrue trivial
  | world, event :: rest =>
    match Every.decide test (step world event) rest with
    | isTrue areRest =>
      if isEvent : test world event = true then
        isTrue ⟨isEvent, areRest⟩
      else
        isFalse fun isEvery => isEvent isEvery.1
    | isFalse notRest => isFalse fun isEvery => notRest isEvery.2

instance (test : World → Event → Bool) (world : World) (events : List Event) :
    Decidable (Every test world events) :=
  Every.decide test world events

instance (world : World) : Decidable (MissesNone world) :=
  inferInstanceAs (Decidable (∀ grant ∈ world.grants, grant.unseen ≠ [] → grant.catchUp = true))

/-- A worker claims a name, creates it and says so; another one claims it. -/
def releasedRun : List Event :=
  [.ask (.worker "1") ["k"] 5000 true, .receive 0 true, .answered 0, .commit 0 "k", .give 0 true,
    .receive 0 true, .ask (.worker "2") ["k"] 5000 true, .receive 0 true, .answered 0, .startPull 0,
    .finishPull 0, .receive 0 true]

theorem grants_sound_releasedRun :
    Every outlived .start releasedRun ∧ Every careful .start releasedRun ∧
      NoOverlap (run releasedRun) ∧ MissesNone (run releasedRun) :=
  have isOutlived : Every outlived .start releasedRun := by decide +kernel
  have isCareful : Every careful .start releasedRun := by decide +kernel
  ⟨isOutlived, isCareful, (grants_sound releasedRun).1,
    (grants_sound releasedRun).2 isOutlived isCareful⟩

/-- A worker exits between its commit and its release. -/
def exitedRun : List Event :=
  [.ask (.worker "1") ["k"] 5000 true, .receive 0 true, .answered 0, .commit 0 "k", .exit "1",
    .ask (.worker "2") ["k"] 5000 true, .receive 0 true]

/-- The next claimant is not told of the create of a worker that exited. -/
theorem exit_misses :
    ¬∀ events : List Event, Every outlived .start events → MissesNone (run events) := by
  intro always
  exact absurd (always exitedRun (by decide +kernel)) (by decide +kernel)

end IyaSts.DirectoryCreateArbiter
