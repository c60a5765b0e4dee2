import IyaSts.DirectoryCreateArbiterRuns

namespace IyaSts.DirectoryCreateArbiter

/-!
# What one decision does

Each operation of the arbiter by what it leaves of the claims and of what is
remembered.  From it no two grants that have not run out are for one key.
-/

open List

namespace Arbiter

/-! ## Decisions -/

/-- Claims that have run out may be gone, and nothing else. -/
structure Swept (now : Int) (arbiter swept : Arbiter) : Prop where
  settled : swept.settled = arbiter.settled
  pulledThrough : swept.pulledThrough = arbiter.pulledThrough
  seq : swept.seq = arbiter.seq
  forgottenThrough : swept.forgottenThrough = arbiter.forgottenThrough
  nextReservation : swept.nextReservation = arbiter.nextReservation
  held : ∀ key held, swept.live.get key = some held → arbiter.live.get key = some held
  kept : ∀ key held, arbiter.live.get key = some held →
    swept.live.get key = some held ∨ held.expiresAt ≤ now

theorem Swept.refl (now : Int) (arbiter : Arbiter) : Swept now arbiter arbiter where
  settled := rfl
  pulledThrough := rfl
  seq := rfl
  forgottenThrough := rfl
  nextReservation := rfl
  held := fun _ _ isHeld => isHeld
  kept := fun _ _ isHeld => .inl isHeld

theorem Swept.sweep (now : Int) (arbiter : Arbiter) : Swept now arbiter (arbiter.sweep now) where
  settled := rfl
  pulledThrough := rfl
  seq := rfl
  forgottenThrough := rfl
  nextReservation := rfl
  held := fun _ _ isHeld => (JsMap.get_of_get_keep isHeld).1
  kept := by
    intro key held isHeld
    by_cases isLive : now < held.expiresAt
    · left
      rw [Arbiter.sweep, JsMap.get_keep, isHeld]
      simp [Option.filter, isLive]
    · exact .inr (Int.not_lt.mp isLive)

theorem Swept.full {now : Int} {arbiter swept : Arbiter}
    (isSwept : Swept now arbiter swept) (full : Bool) :
    Swept now arbiter { swept with full } where
  settled := isSwept.settled
  pulledThrough := isSwept.pulledThrough
  seq := isSwept.seq
  forgottenThrough := isSwept.forgottenThrough
  nextReservation := isSwept.nextReservation
  held := isSwept.held
  kept := isSwept.kept

/-- A key that is taken reads as the claim. -/
theorem get_take (live : JsMap String Live) (keys : List String) (claim : Live) (key : String) :
    (take live keys claim).get key =
      if key ∈ keys then some claim else live.get key := by
  induction keys generalizing live with
  | nil => rfl
  | cons first rest ih =>
    rw [take, foldl_cons, ← take, ih, JsMap.get_set]
    by_cases isFirst : key = first
    · simp [isFirst]
    · simp [isFirst]

/-- The release a grant says to catch up with, if it says so. -/
def throughOf (arbiter : Arbiter) (holder : String) (keys : List String) : Option Nat :=
  if arbiter.mustCatchUp holder keys then some arbiter.seq else none

/-- It is by what is remembered that a holder must catch up. -/
theorem throughOf_congr {arbiter other : Arbiter} (sameSettled : other.settled = arbiter.settled)
    (samePulled : other.pulledThrough = arbiter.pulledThrough)
    (sameForgotten : other.forgottenThrough = arbiter.forgottenThrough)
    (sameSeq : other.seq = arbiter.seq) (holder : String) (keys : List String) :
    other.throughOf holder keys = arbiter.throughOf holder keys := by
  unfold throughOf mustCatchUp since
  rw [sameSettled, samePulled, sameForgotten, sameSeq]

/-- The claim a grant puts into the table. -/
def claimOf (arbiter : Arbiter) (now : Int) (holder : String) (ttlMs : Int) : Live where
  holder
  reservation := arbiter.nextReservation + 1
  expiresAt := now + lifetime ttlMs

/-- What a grant leaves: every key is taken, and none was held. -/
structure Granted (arbiter : Arbiter) (now : Int) (holder : String) (keys : List String)
    (ttlMs : Int) (through : Option Nat) (after : Arbiter) :
    Prop where
  settled : after.settled = arbiter.settled
  pulledThrough : after.pulledThrough = arbiter.pulledThrough
  seq : after.seq = arbiter.seq
  forgottenThrough : after.forgottenThrough = arbiter.forgottenThrough
  nextReservation : after.nextReservation = arbiter.nextReservation + 1
  taken : ∀ key ∈ keys, after.live.get key = some (arbiter.claimOf now holder ttlMs)
  free : ∀ key ∈ keys, ∀ held, arbiter.live.get key = some held → held.expiresAt ≤ now
  held : ∀ key held, key ∉ keys → after.live.get key = some held → arbiter.live.get key = some held
  kept : ∀ key held, key ∉ keys → arbiter.live.get key = some held →
    after.live.get key = some held ∨ held.expiresAt ≤ now
  catchUp : through = arbiter.throughOf holder keys

/-- A decision either grants every key, or takes none. -/
inductive Decision (arbiter : Arbiter) (now : Int) (holder : String) (keys : List String)
    (ttlMs : Int) :
    Answer → Arbiter → Prop where
  | granted {through : Option Nat} {after : Arbiter}
      (isGranted : Granted arbiter now holder keys ttlMs through after) :
      Decision arbiter now holder keys ttlMs (.granted (arbiter.nextReservation + 1) through) after
  | refused {answer : Answer} {after : Arbiter}
      (notGranted : ∀ reservation through, answer ≠ .granted reservation through)
      (isSwept : Swept now arbiter after) :
      Decision arbiter now holder keys ttlMs answer after

variable (arbiter : Arbiter) (holder : String) (reservation : Nat) (committed : Bool)

theorem decide_decision (now : Int) (holder : String) (keys : List String) (ttlMs : Int) :
    Decision arbiter now holder keys ttlMs
    (arbiter.decide now holder keys ttlMs).1
    (arbiter.decide now holder keys ttlMs).2 := by
  unfold Arbiter.decide
  simp only
  generalize isSwept :
    (if arbiter.live.size + keys.length > maxLive then
      arbiter.sweep now
    else
      arbiter) = swept
  have wasSwept : Swept now arbiter swept := by
    rw [← isSwept]
    split
    · exact Swept.sweep now arbiter
    · exact Swept.refl now arbiter
  split
  · exact .refused (by simp) (wasSwept.full true)
  · unfold decideWithin
    split
    · exact .refused (by simp) (wasSwept.full false)
    · rename_i noneHeld
      rw [List.findIdx?_eq_none_iff] at noneHeld
      rw [wasSwept.nextReservation]
      refine .granted
        { settled := wasSwept.settled
          pulledThrough := wasSwept.pulledThrough
          seq := wasSwept.seq
          forgottenThrough := wasSwept.forgottenThrough
          nextReservation := by simp
          taken := ?_
          free := ?_
          held := ?_
          kept := ?_
          catchUp := ?_ }
      · intro key isKey
        simp only [get_take, if_pos isKey, claimOf]
      · intro key isKey held isHeld
        rcases wasSwept.kept key held isHeld with isKept | isOver
        · have notHeld := noneHeld key isKey
          simpa [isHeld, Arbiter.isHeld, isKept] using notHeld
        · exact isOver
      · intro key held notKey isHeld
        simp only [get_take, if_neg notKey] at isHeld
        exact wasSwept.held key held isHeld
      · intro key held notKey isHeld
        simp only [get_take, if_neg notKey]
        exact wasSwept.kept key held isHeld
      · exact
          throughOf_congr wasSwept.settled wasSwept.pulledThrough
            wasSwept.forgottenThrough wasSwept.seq holder keys

theorem keysOf_eq_some {keys named : List String} (isNamed : keysOf keys = some named) :
    named = keys := by
  unfold keysOf at isNamed
  split at isNamed
  · rw [Option.some.injEq] at isNamed
    exact isNamed.symm
  · cases isNamed

/-- A claim that arrives is decided, and a grant names the keys it is of. -/
theorem receiveClaim_decision (now : Int) (holder : String) (id : Nat)
    (keys : List String) (ttlMs : Int) :
    Decision arbiter now holder keys ttlMs
        (arbiter.receiveClaim now holder id keys ttlMs).1.answer
        (arbiter.receiveClaim now holder id keys ttlMs).2 ∧
      ∀ reservation through,
        (arbiter.receiveClaim now holder id keys ttlMs).1.answer =
            .granted reservation through →
          (arbiter.receiveClaim now holder id keys ttlMs).1.keys = keys := by
  unfold receiveClaim
  split
  · exact ⟨.refused (by simp) (Swept.refl now arbiter), fun _ _ isGranted => nomatch isGranted⟩
  · rename_i named isNamed
    rw [keysOf_eq_some isNamed]
    have decision := decide_decision arbiter now holder keys ttlMs
    generalize arbiter.decide now holder keys ttlMs = decided at *
    obtain ⟨answer, after⟩ := decided
    cases answer with
    | granted reservation through => exact ⟨decision, fun _ _ _ => rfl⟩
    | used index => exact ⟨decision, fun _ _ isGranted => nomatch isGranted⟩
    | store code why => exact ⟨decision, fun _ _ isGranted => nomatch isGranted⟩

/-! ## Releases -/

/-- The table holds a key under a claim. -/
def Holds (arbiter : Arbiter) (holder : String) (reservation : Nat) (key : String) : Prop :=
  ∃ held, arbiter.live.get key = some held ∧ held.holder = holder ∧ held.reservation = reservation

/-- What giving back one key leaves. -/
def freed (arbiter : Arbiter) (holder : String) (committed : Bool) (key : String) : Arbiter :=
  let live := arbiter.live.delete key
  if committed then
    { arbiter with
      live
      seq := arbiter.seq + 1
      settled :=
        (arbiter.settled.delete key).set key
          { seq := arbiter.seq + 1, holder } }
  else
    { arbiter with live }

/-- A key is given back if the table holds it under the claim. -/
theorem settleKey_cases (state : Nat × Arbiter) (key : String) :
    (state.2.Holds holder reservation key ∧
    (settleKey holder reservation committed state key).2 = state.2.freed holder committed key) ∨
    (¬state.2.Holds holder reservation key ∧
        (settleKey holder reservation committed state key).2 = state.2) := by
  unfold settleKey
  simp only
  cases isHeld : state.2.live.get key with
  | none => exact .inr ⟨by simp [Holds, isHeld], rfl⟩
  | some held =>
    simp only
    split
    · rename_i notHis
      right
      refine ⟨?_, rfl⟩
      rintro ⟨other, isOther, isHolder, isReservation⟩
      rw [isHeld, Option.some.injEq] at isOther
      subst isOther
      rcases notHis with notHolder | notReservation
      · exact notHolder isHolder
      · exact notReservation isReservation
    · rename_i isHis
      rw [not_or, not_not, not_not] at isHis
      left
      refine ⟨⟨held, isHeld, isHis.1, isHis.2⟩, ?_⟩
      unfold freed
      cases committed <;> rfl

/-- What a fold of `settleKey` keeps that every key given back keeps. -/
theorem settle_induction {holder : String} {reservation : Nat} {committed : Bool}
    {keys : List String} {motive : Arbiter → Prop}
    (free : ∀ key ∈ keys, ∀ arbiter : Arbiter,
      motive arbiter → arbiter.Holds holder reservation key →
        motive (arbiter.freed holder committed key))
    (forgets : ∀ arbiter : Arbiter, ∀ key was,
      motive arbiter → arbiter.settled.oldest = some (key, was) →
        motive
          { arbiter with
            forgottenThrough := max arbiter.forgottenThrough was.seq
            settled := arbiter.settled.delete key })
    {arbiter : Arbiter}
    (base : motive arbiter) :
    motive (arbiter.settle holder reservation keys committed).2 := by
  have folded (state : Nat × Arbiter) (isBase : motive state.2) :
      motive (keys.foldl (settleKey holder reservation committed) state).2 := by
    clear base
    induction keys generalizing state with
    | nil => exact isBase
    | cons key rest ih =>
      rw [foldl_cons]
      apply ih
      · intro other isOther
        exact free other (mem_cons_of_mem _ isOther)
      · rcases settleKey_cases holder reservation committed state key with
          ⟨isHeld, isFreed⟩ | ⟨_, same⟩
        · rw [isFreed]
          exact free key mem_cons_self state.2 isBase isHeld
        · rw [same]
          exact isBase
  have forgotten (times : Nat) :
      ∀ arbiter : Arbiter, motive arbiter → motive (arbiter.forget times) := by
    induction times with
    | zero =>
      intro arbiter isBase
      exact isBase
    | succ times ih =>
      intro arbiter isBase
      rw [forget]
      split
      · split
        · exact isBase
        · rename_i key was isOldest
          exact ih _ (forgets arbiter key was isBase isOldest)
      · exact isBase
  exact forgotten _ _ (folded (0, arbiter) base)

theorem freed_live (key : String) :
    (arbiter.freed holder committed key).live = arbiter.live.delete key := by
  unfold freed
  cases committed <;> rfl

/-- A release takes no other claim than its own. -/
theorem settle_kept (keys : List String) (committed : Bool) {key : String} {held : Live}
    (isHeld : arbiter.live.get key = some held)
    (notReleased : ¬(key ∈ keys ∧ held.holder = holder ∧ held.reservation = reservation)) :
    (arbiter.settle holder reservation keys committed).2.live.get key = some held := by
  refine
    @settle_induction holder reservation committed keys
      (fun arbiter => arbiter.live.get key = some held) ?_ ?_ _ isHeld
  · rintro other isOther arbiter isHeld ⟨held', isHeld', isHolder, isReservation⟩
    have notKey : key ≠ other := by
      rintro rfl
      rw [isHeld, Option.some.injEq] at isHeld'
      subst isHeld'
      exact notReleased ⟨isOther, isHolder, isReservation⟩
    rw [freed_live, JsMap.get_delete_other _ notKey]
    exact isHeld
  · intro _ _ _ isHeld _
    exact isHeld

end Arbiter

/-! ## No two claims for one key -/

/-- A grant that is not given back is in the table, or has run out. -/
def Tabled (world : World) : Prop :=
  ∀ claim ∈ world.outstanding,
    world.arbiter.live.get claim.1 = some claim.2 ∨ claim.2.expiresAt ≤ world.now

variable {world : World}

theorem Tabled.noOverlap (isTabled : Tabled world) : NoOverlap world := by
  intro first isFirst second isSecond sameKey firstLive secondLive
  rcases isTabled first isFirst with firstHeld | isOver
  · rcases isTabled second isSecond with secondHeld | isOver
    · rw [sameKey, secondHeld, Option.some.injEq] at firstHeld
      exact firstHeld.symm
    · exact absurd secondLive (Int.not_lt.mpr isOver)
  · exact absurd firstLive (Int.not_lt.mpr isOver)

/-- A decision leaves every grant in the table, its own among them. -/
theorem Tabled.observe (isTabled : Tabled world) {holder : String} {keys : List String}
    {ttlMs : Int} {answer : Answer} {after : Arbiter}
    (decision : world.arbiter.Decision world.now holder keys ttlMs answer after) :
    ∀ claim ∈ (world.observe holder keys ttlMs answer).outstanding,
      after.live.get claim.1 = some claim.2 ∨ claim.2.expiresAt ≤ world.now := by
  cases decision with
  | granted isGranted =>
    intro claim isClaim
    rw [World.observe] at isClaim
    rcases mem_append.mp isClaim with isOld | isNew
    · by_cases isKey : claim.1 ∈ keys
      · right
        rcases isTabled claim isOld with isHeld | isOver
        · exact isGranted.free claim.1 isKey claim.2 isHeld
        · exact isOver
      · rcases isTabled claim isOld with isHeld | isOver
        · exact isGranted.kept claim.1 claim.2 isKey isHeld
        · exact .inr isOver
    · obtain ⟨key, isKey, rfl⟩ := mem_map.mp isNew
      left
      exact isGranted.taken key isKey
  | refused notGranted isSwept =>
    intro claim isClaim
    have isOld : claim ∈ world.outstanding := by
      unfold World.observe at isClaim
      split at isClaim
      · exact absurd rfl (notGranted _ _)
      · exact isClaim
    rcases isTabled claim isOld with isHeld | isOver
    · exact isSwept.kept claim.1 claim.2 isHeld
    · exact .inr isOver

/-- A release leaves every grant in the table that it does not give back. -/
theorem tabled_settle {outstanding : List (String × Live)} {arbiter : Arbiter} {now : Int}
    (areTabled : ∀ claim ∈ outstanding,
      arbiter.live.get claim.1 = some claim.2 ∨ claim.2.expiresAt ≤ now)
    (holder : String)
    (reservation : Nat)
    (keys : List String)
    (committed : Bool) :
    ∀ claim ∈ outstanding.filter fun claim =>
        !(claim.1 ∈ keys && claim.2.holder = holder && claim.2.reservation = reservation),
      (arbiter.settle holder reservation keys committed).2.live.get claim.1 =
          some claim.2 ∨
        claim.2.expiresAt ≤ now := by
  intro claim isClaim
  obtain ⟨isOld, notReleased⟩ := mem_filter.mp isClaim
  rcases areTabled claim isOld with isHeld | isOver
  · left
    apply Arbiter.settle_kept _ _ _ _ _ isHeld
    rintro ⟨isKey, isHolder, isReservation⟩
    simp [isKey, isHolder, isReservation] at notReleased
  · exact .inr isOver

theorem Arbiter.caughtUpTo_live (arbiter : Arbiter) (holder : String) (through : Nat) :
    (arbiter.caughtUpTo holder through).live = arbiter.live := by
  unfold Arbiter.caughtUpTo
  simp only
  split <;> rfl

/-- A claim that arrives: its grant is in the table, or is taken back. -/
theorem Tabled.receiveClaim (isTabled : Tabled world) (pid : String) (id : Nat)
    (keys : List String) (ttlMs : Int) (delivered : Bool) :
    Tabled (stepReceiveClaim world pid id keys ttlMs delivered) := by
  obtain ⟨decision, sameKeys⟩ :=
    world.arbiter.receiveClaim_decision world.now (holderOf pid) id keys ttlMs
  unfold stepReceiveClaim
  generalize world.arbiter.receiveClaim world.now (holderOf pid) id keys ttlMs = received at *
  obtain ⟨reply, after⟩ := received
  have tabled := isTabled.observe decision
  simp only at decision sameKeys tabled ⊢
  split
  · cases answered : reply.answer with
    | granted reservation through =>
      rw [answered] at tabled
      exact tabled
    | used index =>
      rw [answered] at tabled
      exact tabled
    | store code why =>
      rw [answered] at tabled
      exact tabled
  · cases answered : reply.answer with
    | granted reservation through =>
      rw [answered] at tabled
      simp only [Arbiter.takeBack, answered]
      exact tabled_settle tabled (holderOf pid) reservation reply.keys false
    | used index =>
      rw [answered] at tabled
      exact tabled
    | store code why =>
      rw [answered] at tabled
      exact tabled

/-- A release that arrives. -/
theorem Tabled.receiveRelease (isTabled : Tabled world) (pid : String) (reservation : Nat)
    (keys : List String) (committed : Bool) :
    Tabled (stepReceiveRelease world pid reservation keys committed) := by
  unfold stepReceiveRelease Arbiter.receiveRelease
  cases keysOf keys with
  | none => exact isTabled
  | some named =>
    simp only
    have tabled := tabled_settle isTabled (holderOf pid) reservation named committed
    exact tabled

/-- A message that arrives. -/
theorem Tabled.receive (isTabled : Tabled world) (index : Nat) (delivered : Bool) :
    Tabled (stepReceive world index delivered) := by
  unfold stepReceive
  split
  · exact isTabled
  · rename_i pid message isMessage
    have isTaken : Tabled { world with toFront := world.toFront.eraseIdx index } := isTabled
    cases message with
    | claim id keys ttlMs => exact isTaken.receiveClaim pid id keys ttlMs delivered
    | release reservation keys committed =>
      exact isTaken.receiveRelease pid reservation keys committed
    | caughtUp through =>
      intro claim isClaim
      simp only [Arbiter.caughtUpTo_live]
      exact isTabled claim isClaim

/-- What a holder gives back. -/
theorem Tabled.give (isTabled : Tabled world) (index : Nat) (committed : Bool) :
    Tabled (stepGive world index committed) := by
  unfold stepGive
  split
  · exact isTabled
  · rename_i holding isHolding
    cases holding.party with
    | front =>
      simp only
      have tabled := tabled_settle isTabled front holding.reservation holding.keys committed
      exact tabled
    | worker pid => exact isTabled

/-- A worker that exits leaves the others' grants. -/
theorem Tabled.exit (isTabled : Tabled world) (pid : String) : Tabled (stepExit world pid) := by
  intro claim isClaim
  simp only [stepExit] at isClaim
  obtain ⟨isOld, isOther⟩ := mem_filter.mp isClaim
  rcases isTabled claim isOld with isHeld | isOver
  · left
    simp only [stepExit, Arbiter.workerExited, Arbiter.dropHolder]
    rw [JsMap.get_keep, isHeld, Option.filter, if_pos isOther]
  · exact .inr isOver

/-- One step leaves every grant in the table that is not given back. -/
theorem Tabled.step {world : World} (isTabled : Tabled world) (event : Event) :
    Tabled (step world event) := by
  cases event with
  | tick later =>
    intro claim isClaim
    rcases isTabled claim isClaim with isHeld | isOver
    · exact .inl isHeld
    · right
      simp only [DirectoryCreateArbiter.step]
      omega
  | ask party keys ttlMs sent =>
    cases party with
    | front =>
      have tabled := isTabled.observe (world.arbiter.decide_decision world.now front keys ttlMs)
      simp only [DirectoryCreateArbiter.step, stepAsk]
      generalize world.arbiter.decide world.now front keys ttlMs = decided at *
      obtain ⟨answer, after⟩ := decided
      cases answer <;> exact tabled
    | worker pid =>
      simp only [DirectoryCreateArbiter.step, stepAsk]
      split
      · exact isTabled
      · split <;> exact isTabled
  | receive index delivered => exact isTabled.receive index delivered
  | loseMessage index => exact isTabled
  | answered index =>
    simp only [DirectoryCreateArbiter.step, stepAnswered]
    split
    · exact isTabled
    · split
      · exact isTabled
      · split <;> exact isTabled
  | loseReply index => exact isTabled
  | giveUp pid id => exact isTabled
  | startPull index =>
    simp only [DirectoryCreateArbiter.step, stepStartPull]
    split
    · exact isTabled
    · split <;> exact isTabled
  | finishPull index =>
    simp only [DirectoryCreateArbiter.step, stepFinishPull]
    split
    · exact isTabled
    · rename_i holding isHolding
      split
      · unfold tellCaughtUp
        split
        · intro claim isClaim
          simp only [Arbiter.caughtUpTo_live]
          exact isTabled claim isClaim
        · exact isTabled
      · exact isTabled
  | commit index key =>
    simp only [DirectoryCreateArbiter.step, stepCommit]
    split
    · exact isTabled
    · split <;> exact isTabled
  | give index committed => exact isTabled.give index committed
  | exit pid => exact isTabled.exit pid
  | follow holder index =>
    simp only [DirectoryCreateArbiter.step]
    split <;> exact isTabled

/-- No two grants for one key are out at a time, in any run. -/
theorem run_noOverlap (events : List Event) : NoOverlap (run events) := by
  have tabled (world : World) (isTabled : Tabled world) :
      Tabled (events.foldl DirectoryCreateArbiter.step world) := by
    induction events generalizing world with
    | nil => exact isTabled
    | cons event rest ih => exact ih _ (isTabled.step event)
  exact (tabled .start fun _ isNone => nomatch isNone).noOverlap

end IyaSts.DirectoryCreateArbiter
