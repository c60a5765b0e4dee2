import IyaSts.CommitAnnouncer
import Mathlib.Data.List.Nodup

namespace IyaSts.CommitAnnouncer

/-!
# What a worker's announcements keep

No ticket is lost or named twice, no committed row is passed over, and the change
marks cut the committed rows where the counts do.  A named ticket's rows are all
committed in a run where no request is overtaken by the flush that covers it.
-/

open List

/-! ## What was read between two marks -/

/-- The mark of some rows, where the store keeps marks. -/
def markAt {Request : Type} (keepsMarks : Bool) (rows : List (Row Request)) : Option Mark :=
  if keepsMarks then some (committedMark rows) else none

/-- The announcements follow each other between two counts. -/
def Chained : Nat → List Sent → Nat → Prop
  | first, [], last => first = last
  | first, sent :: rest, last =>
    sent.above = first ∧ first ≤ sent.upTo ∧ Chained sent.upTo rest last

/-- The announcement reports the row at an index of the committed ones. -/
def Sent.reports (sent : Sent) (index : Nat) : Bool :=
  sent.message.wrote && decide (sent.above ≤ index ∧ index < sent.upTo)

/-- The rows an announcement was read over. -/
def Sent.rows {Request : Type} (sent : Sent)
    (committed : List (Row Request)) : List (Row Request) :=
  (committed.take sent.upTo).drop sent.above

/-- The keys an announcement carries are those of the rows it was read over, and
none of these is shared. -/
def Sent.KeysOfItsRows {Request : Type} (sent : Sent) (committed : List (Row Request)) : Prop :=
  ∀ keys, sent.message.windowedKeys = some keys →
    (∀ row ∈ sent.rows committed, row.kind ≠ .other) ∧
      keys = distinctKeys [] (directoryKeys (sent.rows committed))

variable {first last : Nat} {sents : List Sent} {sent : Sent}

theorem Chained.first_le (chained : Chained first sents last) : first ≤ last := by
  induction sents generalizing first with
  | nil =>
    have same : first = last := chained
    omega
  | cons sent rest ih =>
    obtain ⟨_, rising, later⟩ := chained
    exact Nat.le_trans rising (ih later)

/-- One more announcement, read on from where the last one was. -/
theorem Chained.concat (chained : Chained first sents last) (above : sent.above = last)
    (rising : last ≤ sent.upTo) :
    Chained first (sents ++ [sent]) sent.upTo := by
  induction sents generalizing first with
  | nil =>
    have same : first = last := chained
    subst same
    exact ⟨above, rising, rfl⟩
  | cons head rest ih =>
    obtain ⟨headAbove, headRising, later⟩ := chained
    exact ⟨headAbove, headRising, ih later⟩

theorem Chained.above_le (chained : Chained first sents last) (member : sent ∈ sents) :
    sent.above ≤ sent.upTo := by
  induction sents generalizing first with
  | nil => cases member
  | cons head rest ih =>
    obtain ⟨above, rising, later⟩ := chained
    cases member with
    | head => omega
    | tail _ member => exact ih later member

/-- Announcements that follow each other report each row between the two counts
once. -/
theorem Chained.reports_once (chained : Chained first sents last)
    (toldTruth : ∀ sent ∈ sents, sent.message.wrote = decide (sent.above < sent.upTo))
    (index : Nat) :
    sents.countP (fun sent => sent.reports index) =
      if first ≤ index ∧ index < last then 1 else 0 := by
  induction sents generalizing first with
  | nil =>
    have same : first = last := chained
    rw [if_neg (by omega)]
    rfl
  | cons sent rest ih =>
    obtain ⟨above, rising, later⟩ := chained
    have restOnce := ih later fun sent member => toldTruth sent (mem_cons_of_mem _ member)
    have laterRising := later.first_le
    have headReports : sent.reports index = decide (first ≤ index ∧ index < sent.upTo) := by
      rw [Sent.reports, toldTruth sent mem_cons_self, above, ← Bool.decide_and]
      exact decide_eq_decide.mpr (by omega)
    rw [countP_cons, restOnce, headReports]
    simp only [decide_eq_true_eq]
    split <;> split <;> split <;> omega

section

variable {Request : Type}

theorem directoryKeys_append (earlier later : List (Row Request)) :
    directoryKeys (earlier ++ later) = directoryKeys earlier ++ directoryKeys later :=
  filterMap_append

variable {keys : List Key}

/-- The directory rows since a mark taken earlier are those that followed. -/
theorem directorySince_append {earlier later : List (Row Request)}
    (since : directorySince (earlier ++ later) (committedMark earlier) = some keys) :
    keys = directoryKeys later := by
  simp only [directorySince, committedDirectory, committedMark, directoryKeys_append] at since
  split at since
  · cases since
  · rename_i kept
    obtain rfl := Option.some.inj since
    rw [drop_drop]
    simp only [length_drop, length_append] at kept ⊢
    rw [show
        (directoryKeys earlier).length + (directoryKeys later).length -
            committedDirectoryLimit +
          ((directoryKeys earlier).length -
            ((directoryKeys earlier).length + (directoryKeys later).length -
              ((directoryKeys earlier).length + (directoryKeys later).length -
                ((directoryKeys earlier).length + (directoryKeys later).length -
                  committedDirectoryLimit)))) =
          (directoryKeys earlier).length by omega]
    exact drop_left

/-- What is windowed since a mark taken earlier: nothing that followed is shared,
and the keys are those that followed. -/
theorem windowedKeysSince_append {window : Option (Key → Bool)}
    {rows earlier later : List (Row Request)} (parts : rows = earlier ++ later)
    (since : windowedKeysSince window rows (committedMark earlier) = some keys) :
    (∀ row ∈ later, row.kind ≠ .other) ∧ keys = distinctKeys [] (directoryKeys later) := by
  subst parts
  unfold windowedKeysSince at since
  split at since
  · cases since
  · rename_i noneShared
    cases found : directorySince (earlier ++ later) (committedMark earlier) with
    | none => simp [found] at since
    | some sinceKeys =>
      have sameKeys := directorySince_append found
      simp only [found] at since
      refine ⟨?_, ?_⟩
      · have counted : later.countP Row.isOther = 0 := by
          simp only [committedMark, countP_append] at noneShared
          omega
        intro row member shared
        have notOther := countP_eq_zero.mp counted row member
        simp [Row.isOther, shared] at notOther
      · unfold allWindowed at since
        split at since
        · cases since
        · split at since
          · rw [← Option.some.inj since, sameKeys]
          · cases since

/-! ## The counts and the marks -/

/-- The announcements sent account for the rows committed up to
`announcedWritten`. -/
structure Accounted (keepsMarks : Bool) (startedAt : Nat)
    (state : State Request) : Prop where
  notAhead : state.announcedWritten ≤ state.committed.length
  chained : Chained startedAt state.sent state.announcedWritten
  toldTruth : ∀ sent ∈ state.sent, sent.message.wrote = decide (sent.above < sent.upTo)
  within : ∀ sent ∈ state.sent, sent.upTo ≤ state.committed.length
  marks :
    ∀ sent ∈ state.sent,
      sent.readFrom = markAt keepsMarks (state.committed.take sent.above) ∧
        sent.readTo = markAt keepsMarks (state.committed.take sent.upTo)
  keys : ∀ sent ∈ state.sent, sent.KeysOfItsRows state.committed
  mark : state.changeMark = markAt keepsMarks (state.committed.take state.announcedWritten)

namespace Accounted

variable
  {keepsMarks : Bool}
  {startedAt : Nat}
  {state : State Request}

/-- The worker starts with nothing announced. -/
theorem ofStart (pending committed : List (Row Request)) (written : Nat) :
    Accounted keepsMarks committed.length
      (State.start keepsMarks pending committed written) where
  notAhead := Nat.le_refl _
  chained := rfl
  toldTruth := fun _ member => absurd member not_mem_nil
  within := fun _ member => absurd member not_mem_nil
  marks := fun _ member => absurd member not_mem_nil
  keys := fun _ member => absurd member not_mem_nil
  mark := by
    simp only [State.start, take_length]
    rfl

/-- What is accounted for reads only the counts, the mark and what was sent. -/
theorem ofSame {other : State Request} (accounted : Accounted keepsMarks startedAt state)
    (sameCommitted : other.committed = state.committed)
    (sameAnnounced : other.announcedWritten = state.announcedWritten)
    (sameMark : other.changeMark = state.changeMark) (sameSent : other.sent = state.sent) :
    Accounted keepsMarks startedAt other where
  notAhead := by
    rw [sameAnnounced, sameCommitted]
    exact accounted.notAhead
  chained := by
    rw [sameAnnounced, sameSent]
    exact accounted.chained
  toldTruth := by
    rw [sameSent]
    exact accounted.toldTruth
  within := by
    rw [sameSent, sameCommitted]
    exact accounted.within
  marks := by
    rw [sameSent, sameCommitted]
    exact accounted.marks
  keys := by
    rw [sameSent, sameCommitted]
    exact accounted.keys
  mark := by
    rw [sameMark, sameCommitted, sameAnnounced]
    exact accounted.mark

/-- More rows are committed, after those that are. -/
theorem commit (accounted : Accounted keepsMarks startedAt state)
    (batch rest : List (Row Request)) :
    Accounted keepsMarks startedAt
      { state with
        pending := rest
        committed := state.committed ++ batch } := by
  have sameTake
      {count : Nat}
      (within : count ≤ state.committed.length) :
      (state.committed ++ batch).take count = state.committed.take count :=
    take_append_of_le_length within
  have aboveWithin
      {sent : Sent}
      (member : sent ∈ state.sent) :
      sent.above ≤ sent.upTo ∧ sent.upTo ≤ state.committed.length :=
    ⟨accounted.chained.above_le member, accounted.within sent member⟩
  refine
    { notAhead := ?_
      chained := accounted.chained
      toldTruth := accounted.toldTruth
      within := ?_
      marks := ?_
      keys := ?_
      mark := ?_ }
  · have notAhead := accounted.notAhead
    simp only [length_append]
    omega
  · intro sent member
    have within := accounted.within sent member
    simp only [length_append]
    omega
  · intro sent member
    obtain ⟨rising, within⟩ := aboveWithin member
    simp only [sameTake within, sameTake (Nat.le_trans rising within)]
    exact accounted.marks sent member
  · intro sent member
    obtain ⟨_, within⟩ := aboveWithin member
    simp only [Sent.KeysOfItsRows, Sent.rows, sameTake within]
    exact accounted.keys sent member
  · simp only [sameTake accounted.notAhead]
    exact accounted.mark

/-- An announcement accounts for the rows committed since the last one. -/
theorem announce (accounted : Accounted keepsMarks startedAt state) (window : Option (Key → Bool))
    (through : Nat) (tickets : List Int) (answered : Bool) :
    Accounted keepsMarks startedAt (state.announce window through tickets answered) := by
  have notAhead := accounted.notAhead
  have reached : max state.announcedWritten state.committed.length = state.committed.length := by
    omega
  have newMark :
      (state.changeMark.map fun _ => committedMark state.committed) =
        markAt keepsMarks (state.committed.take state.committed.length) := by
    rw [accounted.mark, take_length]
    cases keepsMarks <;> rfl
  have newKeys :
      ∀ keys,
        (state.changeMark.bind
            (windowedKeysSince window state.committed)) = some keys →
          (∀ row ∈ state.committed.drop state.announcedWritten,
            row.kind ≠ .other) ∧
            keys =
              distinctKeys [] (directoryKeys (state.committed.drop state.announcedWritten)) := by
    intro keys read
    rw [accounted.mark] at read
    cases keepsMarks with
    | false => cases read
    | true =>
      simp only [markAt, ↓reduceIte, Option.bind_some] at read
      exact windowedKeysSince_append
        (take_append_drop state.announcedWritten state.committed).symm
        read
  refine
    { notAhead := ?_
      chained := accounted.chained.concat rfl (Nat.le_max_left _ _)
      toldTruth := ?_
      within := ?_
      marks := ?_
      keys := ?_
      mark := ?_ }
  · simp only [State.announce, reached]
    exact Nat.le_refl _
  · intro sent member
    rcases mem_append.mp member with earlier | latest
    · exact accounted.toldTruth sent earlier
    · obtain rfl := mem_singleton.mp latest
      simp only [reached]
  · intro sent member
    rcases mem_append.mp member with earlier | latest
    · exact accounted.within sent earlier
    · obtain rfl := mem_singleton.mp latest
      simp only [State.announce, reached]
      exact Nat.le_refl _
  · intro sent member
    rcases mem_append.mp member with earlier | latest
    · exact accounted.marks sent earlier
    · obtain rfl := mem_singleton.mp latest
      simp only [State.announce, reached]
      exact ⟨accounted.mark, newMark⟩
  · intro sent member
    rcases mem_append.mp member with earlier | latest
    · exact accounted.keys sent earlier
    · obtain rfl := mem_singleton.mp latest
      simp only [Sent.KeysOfItsRows, Sent.rows, State.announce, reached, take_length]
      exact newKeys
  · simp only [State.announce, reached]
    exact newMark

theorem announceWhenCommitted (accounted : Accounted keepsMarks startedAt state) :
    Accounted keepsMarks startedAt state.announceWhenCommitted := by
  unfold State.announceWhenCommitted
  split
  · exact accounted.ofSame rfl rfl rfl rfl
  · exact accounted.ofSame rfl rfl rfl rfl

theorem announceEnd (accounted : Accounted keepsMarks startedAt state)
    (window : Option (Key → Bool)) (ticket : Int) (answered : Bool) :
    Accounted keepsMarks startedAt (state.announceEnd window ticket answered) := by
  cases answered with
  | true => exact (accounted.announce _ _ _ _).announceWhenCommitted
  | false =>
    have noted : Accounted keepsMarks startedAt (state.noteTicket ticket) := by
      unfold State.noteTicket
      split
      · exact accounted.ofSame rfl rfl rfl rfl
      · exact accounted
    exact noted.announceWhenCommitted

theorem announceOnce [DecidableEq Request] (accounted : Accounted keepsMarks startedAt state)
    (window : Option (Key → Bool)) (response : Request) (ticket : Int) (answered : Bool) :
    Accounted keepsMarks startedAt (state.announceOnce window response ticket answered) := by
  unfold State.announceOnce
  split
  · exact accounted
  · refine announceEnd ?_ window ticket answered
    exact accounted.ofSame rfl rfl rfl rfl

/-- Every step keeps the account. -/
theorem step [DecidableEq Request] (ticketOf : Request → Int)
    (accounted : Accounted keepsMarks startedAt state) (event : Event Request) :
    Accounted keepsMarks startedAt (CommitAnnouncer.step ticketOf state event) := by
  cases event with
  | write kind writer => exact accounted.ofSame rfl rfl rfl rfl
  | commit batch rest => exact accounted.commit batch rest
  | finish response held window =>
    refine announceOnce ?_ window response (ticketOf response) held
    exact accounted.ofSame rfl rfl rfl rfl
  | close response writableEnded held window => exact accounted.announceOnce _ _ _ _
  | settle operation settled held window =>
    refine announceEnd ?_ window (ticketOf operation) (settled && held)
    exact accounted.ofSame rfl rfl rfl rfl
  | flushed window =>
    simp only [CommitAnnouncer.step]
    split
    · refine announce ?_ window _ _ false
      exact accounted.ofSame rfl rfl rfl rfl
    · exact accounted
  | failed =>
    simp only [CommitAnnouncer.step]
    split
    · exact accounted.ofSame rfl rfl rfl rfl
    · exact accounted
  | landed =>
    simp only [CommitAnnouncer.step]
    split
    · refine announceWhenCommitted ?_
      exact accounted.ofSame rfl rfl rfl rfl
    · exact accounted.ofSame rfl rfl rfl rfl

end Accounted

/-! ## The tickets -/

namespace State

/-- The tickets that wait, are covered or were named. -/
def placed (state : State Request) : List Int :=
  state.finishedTickets ++ state.covered ++ state.named

theorem placed_count (state : State Request) (ticket : Int) :
    state.placed.count ticket =
      state.finishedTickets.count ticket + state.covered.count ticket +
        state.named.count ticket := by
  simp only [placed, count_append]

theorem named_announce (state : State Request) (window : Option (Key → Bool))
    (through : Nat) (tickets : List Int) (answered : Bool) :
    (state.announce window through tickets answered).named = state.named ++ tickets := by
  simp [named, announce]

variable {ticket other : Int} {state : State Request}

/-- A positive ticket alone, or none. -/
theorem count_positive (positive : 0 < other) :
    (if 0 < ticket then [ticket] else []).count other = [ticket].count other := by
  by_cases ticketPositive : 0 < ticket
  · rw [if_pos ticketPositive]
  · have different : ticket ≠ other := by omega
    simp [ticketPositive, different]

/-- A ticket announced at once was placed nowhere before. -/
theorem placed_announceAnswered (state : State Request) (window : Option (Key → Bool))
    (ticket : Int) (positive : 0 < other) :
    (state.announceAnswered window ticket).placed.count other =
      state.placed.count other + [ticket].count other := by
  have named :
      (state.announceAnswered window ticket).named.count other =
        state.named.count other + [ticket].count other := by
    rw [announceAnswered, named_announce, count_append, count_positive positive]
  rw [placed_count, placed_count, named]
  simp only [announceAnswered, announce, covered]
  omega

theorem placed_noteTicket (state : State Request) (ticket : Int) (positive : 0 < other) :
    (state.noteTicket ticket).placed.count other =
      state.placed.count other + [ticket].count other := by
  rw [← count_positive positive]
  unfold noteTicket
  split
  · simp only [placed, covered, named, count_append]
    omega
  · simp

/-- Starting a flush moves what waits under it. -/
theorem placed_announceWhenCommitted (noneCovered : state.announcing = false → state.covered = [])
    (ticket : Int) :
    state.announceWhenCommitted.placed.count ticket = state.placed.count ticket := by
  unfold announceWhenCommitted
  split
  · rfl
  · rename_i idle
    rw [placed_count state, noneCovered (by simpa using idle)]
    simp only [placed, covered, named, count_append]
    simp

@[simp] theorem announcing_announceWhenCommitted (state : State Request) :
    state.announceWhenCommitted.announcing = true := by
  unfold announceWhenCommitted
  split
  · assumption
  · rfl

/-- Ending a response or an operation places its ticket once more. -/
theorem placed_announceEnd (noneCovered : state.announcing = false → state.covered = [])
    (window : Option (Key → Bool)) (ticket : Int) (answered : Bool) (positive : 0 < other) :
    (state.announceEnd window ticket answered).placed.count other =
      state.placed.count other + [ticket].count other := by
  cases answered with
  | true =>
    rw [announceEnd, if_pos rfl, placed_announceWhenCommitted,
      placed_announceAnswered state window ticket positive]
    exact noneCovered
  | false =>
    rw [announceEnd, if_neg Bool.false_ne_true, placed_announceWhenCommitted,
      placed_noteTicket state ticket positive]
    unfold noteTicket
    split
    · exact noneCovered
    · exact noneCovered

@[simp] theorem announcing_announceEnd (state : State Request) (window : Option (Key → Bool))
    (ticket : Int) (answered : Bool) :
    (state.announceEnd window ticket answered).announcing = true := by
  simp [announceEnd]

/-- Starting a flush touches neither the rows, nor who has ended, nor what was
sent. -/
theorem announceWhenCommitted_keeps (state : State Request) :
    state.announceWhenCommitted.ended = state.ended ∧
      state.announceWhenCommitted.announcedFor = state.announcedFor ∧
      state.announceWhenCommitted.pending = state.pending ∧
      state.announceWhenCommitted.named = state.named := by
  unfold announceWhenCommitted
  split
  · exact ⟨rfl, rfl, rfl, rfl⟩
  · exact ⟨rfl, rfl, rfl, rfl⟩

theorem noteTicket_keeps (state : State Request) (ticket : Int) :
    (state.noteTicket ticket).ended = state.ended ∧
      (state.noteTicket ticket).announcedFor = state.announcedFor ∧
      (state.noteTicket ticket).pending = state.pending ∧
      (state.noteTicket ticket).named = state.named := by
  unfold noteTicket
  split
  · exact ⟨rfl, rfl, rfl, rfl⟩
  · exact ⟨rfl, rfl, rfl, rfl⟩

/-- An end touches neither the rows nor who has ended. -/
theorem announceEnd_keeps (state : State Request) (window : Option (Key → Bool))
    (ticket : Int) (answered : Bool) :
    (state.announceEnd window ticket answered).ended = state.ended ∧
      (state.announceEnd window ticket answered).announcedFor = state.announcedFor ∧
      (state.announceEnd window ticket answered).pending = state.pending := by
  cases answered with
  | true =>
    obtain ⟨ended, announcedFor, pending, _⟩ :=
      (state.announceAnswered window ticket).announceWhenCommitted_keeps
    exact ⟨ended, announcedFor, pending⟩
  | false =>
    obtain ⟨ended, announcedFor, pending, _⟩ :=
      (state.noteTicket ticket).announceWhenCommitted_keeps
    obtain ⟨notedEnded, notedFor, notedPending, _⟩ := state.noteTicket_keeps ticket
    exact ⟨ended.trans notedEnded, announcedFor.trans notedFor, pending.trans notedPending⟩

/-- An end names its own ticket at most, and only one that is answered. -/
theorem mem_named_announceEnd {window : Option (Key → Bool)} {answered : Bool}
    (member : other ∈ (state.announceEnd window ticket answered).named) :
    other ∈ state.named ∨ answered = true ∧ other = ticket := by
  cases answered with
  | true =>
    rw [announceEnd, if_pos rfl, (announceWhenCommitted_keeps _).2.2.2, announceAnswered,
      named_announce] at member
    rcases mem_append.mp member with earlier | own
    · exact Or.inl earlier
    · split at own
      · exact Or.inr ⟨rfl, mem_singleton.mp own⟩
      · cases own
  | false =>
    rw [announceEnd, if_neg Bool.false_ne_true, (announceWhenCommitted_keeps _).2.2.2,
      (noteTicket_keeps _ _).2.2.2] at member
    exact Or.inl member

end State

/-- Each positive ticket of what has ended is in one place. -/
structure Placed (ticketOf : Request → Int)
    (state : State Request) : Prop where
  endedOnce : state.ended.Nodup
  announcedEnded : ∀ response ∈ state.announcedFor, response ∈ state.ended
  noneCovered : state.announcing = false → state.covered = []
  counted :
    ∀ ticket, 0 < ticket → state.placed.count ticket = (state.ended.map ticketOf).count ticket

namespace Placed

variable
  {ticketOf : Request → Int}
  {state : State Request}

theorem ofStart (keepsMarks : Bool) (pending committed : List (Row Request)) (written : Nat) :
    Placed ticketOf (State.start keepsMarks pending committed written) where
  endedOnce := nodup_nil
  announcedEnded := fun _ member => absurd member not_mem_nil
  noneCovered := fun _ => rfl
  counted := fun _ _ => rfl

/-- Something that had not ended ends. -/
theorem announceEnd {state next : State Request} (placed : Placed ticketOf state)
    {request : Request} (fresh : request ∉ state.ended)
    (ended : next.ended = request :: state.ended)
    (announcedFor :
      ∀ response ∈ next.announcedFor, response = request ∨ response ∈ state.announcedFor)
    (sameAnnouncing : next.announcing = state.announcing)
    (sameFlight : next.flight = state.flight)
    (samePlaced : next.placed = state.placed)
    (window : Option (Key → Bool))
    (answered : Bool) :
    Placed ticketOf (next.announceEnd window (ticketOf request) answered) := by
  obtain ⟨sameEnded, sameFor, _⟩ := next.announceEnd_keeps window (ticketOf request) answered
  have noneCovered : next.announcing = false → next.covered = [] := by
    intro idle
    rw [State.covered, sameFlight]
    exact placed.noneCovered (sameAnnouncing ▸ idle)
  refine
    { endedOnce := ?_
      announcedEnded := ?_
      noneCovered := ?_
      counted := ?_ }
  · rw [sameEnded, ended]
    exact nodup_cons.mpr ⟨fresh, placed.endedOnce⟩
  · rw [sameEnded, sameFor, ended]
    intro response member
    rcases announcedFor response member with own | earlier
    · exact own ▸ mem_cons_self
    · exact mem_cons_of_mem _ (placed.announcedEnded response earlier)
  · intro idle
    rw [State.announcing_announceEnd] at idle
    cases idle
  · intro ticket positive
    rw [State.placed_announceEnd noneCovered _ _ _ positive, samePlaced,
      placed.counted ticket positive, sameEnded, ended, map_cons,
      count_cons, count_cons, count_nil, Nat.zero_add]

/-- Every step the world allows keeps the tickets in their places. -/
theorem step [DecidableEq Request] (placed : Placed ticketOf state)
    {event : Event Request} (allowed : Allowed state event) :
    Placed ticketOf (CommitAnnouncer.step ticketOf state event) := by
  have once
      {next : State Request}
      {response : Request}
      (known : response ∈ state.ended → response ∈ state.announcedFor)
      (sameFor : next.announcedFor = state.announcedFor)
      (sameEnded : next.ended = state.ended)
      (sameAnnouncing : next.announcing = state.announcing)
      (sameFlight : next.flight = state.flight)
      (samePlaced : next.placed = state.placed)
      (window : Option (Key → Bool))
      (answered : Bool) :
      Placed ticketOf (next.announceOnce window response (ticketOf response) answered) := by
    unfold State.announceOnce
    split
    · refine
        { endedOnce := sameEnded ▸ placed.endedOnce
          announcedEnded := ?_
          noneCovered := ?_
          counted := ?_ }
      · rw [sameEnded, sameFor]
        exact placed.announcedEnded
      · rw [State.covered, sameFlight, sameAnnouncing]
        exact placed.noneCovered
      · rw [samePlaced, sameEnded]
        exact placed.counted
    · rename_i notAnnounced
      rw [sameFor] at notAnnounced
      refine placed.announceEnd (fun ended => notAnnounced (known ended))
        ?_ ?_ ?_ ?_ ?_ window answered
      · rw [sameEnded]
      · intro other member
        rw [sameFor] at member
        exact mem_cons.mp member
      · exact sameAnnouncing
      · exact sameFlight
      · exact samePlaced
  cases event with
  | write kind writer =>
    exact ⟨placed.endedOnce, placed.announcedEnded, placed.noneCovered, placed.counted⟩
  | commit batch rest =>
    exact ⟨placed.endedOnce, placed.announcedEnded, placed.noneCovered, placed.counted⟩
  | finish response held window =>
    refine once allowed.1 ?_ ?_ ?_ ?_ ?_ window held
    all_goals rfl
  | close response writableEnded held window =>
    exact once allowed.1 rfl rfl rfl rfl rfl window (writableEnded && held)
  | settle operation settled held window =>
    refine placed.announceEnd allowed.1 ?_ ?_ ?_ ?_ ?_ window (settled && held)
    · rfl
    · exact fun _ member => Or.inr member
    · rfl
    · rfl
    · rfl
  | flushed window =>
    obtain ⟨covered, through, writtenBefore, flying, _⟩ := allowed
    have stateCovered : state.covered = covered := by rw [State.covered, flying]
    simp only [CommitAnnouncer.step, flying]
    refine
      { endedOnce := placed.endedOnce
        announcedEnded := placed.announcedEnded
        noneCovered := fun _ => rfl
        counted := ?_ }
    intro ticket positive
    have counted := placed.counted ticket positive
    rw [State.placed_count, stateCovered] at counted
    rw [State.placed_count, State.named_announce, count_append]
    simp only [State.announce, State.covered, count_nil]
    simp only [State.named] at counted ⊢
    omega
  | failed =>
    obtain ⟨covered, through, writtenBefore, flying⟩ := allowed
    have stateCovered : state.covered = covered := by rw [State.covered, flying]
    simp only [CommitAnnouncer.step, flying]
    refine
      { endedOnce := placed.endedOnce
        announcedEnded := placed.announcedEnded
        noneCovered := fun _ => rfl
        counted := ?_ }
    intro ticket positive
    have counted := placed.counted ticket positive
    rw [State.placed_count, stateCovered] at counted
    rw [State.placed_count]
    simp only [State.covered, count_append, count_nil]
    simp only [State.named] at counted ⊢
    omega
  | landed =>
    have landing : state.flight = .landing := allowed
    have landed :
        Placed ticketOf
          { state with
            announcing := false
            again := false
            flight := .idle } := by
      refine
        { endedOnce := placed.endedOnce
          announcedEnded := placed.announcedEnded
          noneCovered := fun _ => rfl
          counted := ?_ }
      intro ticket positive
      have counted := placed.counted ticket positive
      rw [State.placed, State.covered, landing] at counted
      exact counted
    simp only [CommitAnnouncer.step]
    split
    · refine
        { endedOnce := placed.endedOnce
          announcedEnded := placed.announcedEnded
          noneCovered := ?_
          counted := ?_ }
      · intro idle
        rw [State.announcing_announceWhenCommitted] at idle
        cases idle
      · intro ticket positive
        rw [State.placed_announceWhenCommitted fun _ => rfl]
        exact landed.counted ticket positive
    · exact ⟨landed.endedOnce, landed.announcedEnded, landed.noneCovered, landed.counted⟩

end Placed

/-! ## What is named is committed -/

/-- A named request has nothing uncommitted. -/
def NamedCommitted (ticketOf : Request → Int) (state : State Request) : Prop :=
  ∀ request, 0 < ticketOf request → ticketOf request ∈ state.named → AllCommitted state request

/-- No two requests share a positive ticket. -/
def DistinctTickets (ticketOf : Request → Int) : Prop :=
  ∀ request other, 0 < ticketOf request → ticketOf request = ticketOf other → request = other

namespace NamedCommitted

variable
  {ticketOf : Request → Int}
  {state : State Request}

variable {next : State Request} {answered : Bool}

/-- Ending with a held answer names a request whose rows are committed. -/
theorem announceEnd (distinct : DistinctTickets ticketOf)
    (namedCommitted : NamedCommitted ticketOf state) (sameNamed : next.named = state.named)
    (samePending : next.pending = state.pending) {request : Request}
    (held : answered = true → AllCommitted state request) (window : Option (Key → Bool)) :
    NamedCommitted ticketOf (next.announceEnd window (ticketOf request) answered) := by
  obtain ⟨_, _, pending⟩ := next.announceEnd_keeps window (ticketOf request) answered
  intro other positive member row pendingRow
  rw [pending, samePending] at pendingRow
  rcases State.mem_named_announceEnd member with earlier | ⟨answers, same⟩
  · rw [sameNamed] at earlier
    exact namedCommitted other positive earlier row pendingRow
  · obtain rfl := distinct other request positive same
    exact held answers row pendingRow

theorem announceOnce [DecidableEq Request] (distinct : DistinctTickets ticketOf)
    (namedCommitted : NamedCommitted ticketOf state) (sameNamed : next.named = state.named)
    (samePending : next.pending = state.pending) {response : Request}
    (held : answered = true → AllCommitted state response) (window : Option (Key → Bool)) :
    NamedCommitted ticketOf (next.announceOnce window response (ticketOf response) answered) := by
  unfold State.announceOnce
  split
  · intro request positive member row pendingRow
    rw [sameNamed] at member
    rw [samePending] at pendingRow
    exact namedCommitted request positive member row pendingRow
  · refine announceEnd distinct namedCommitted ?_ ?_ held window
    · exact sameNamed
    · exact samePending

/-- Every step that overtakes no request keeps what is named committed. -/
theorem step [DecidableEq Request] (distinct : DistinctTickets ticketOf)
    (namedCommitted : NamedCommitted ticketOf state) {event : Event Request}
    (allowed : Allowed state event) (notOvertaken : NotOvertaken ticketOf state event) :
    NamedCommitted ticketOf (CommitAnnouncer.step ticketOf state event) := by
  cases event with
  | write kind writer =>
    intro request positive member row pendingRow written
    rcases mem_append.mp pendingRow with earlier | latest
    · exact namedCommitted request positive member row earlier written
    · obtain rfl := mem_singleton.mp latest
      have sameWriter : writer = some request := written
      subst sameWriter
      exact notOvertaken positive member
  | commit batch rest =>
    intro request positive member row pendingRow
    have wasPending : row ∈ state.pending :=
      allowed.mem_iff.mpr (mem_append_right batch pendingRow)
    exact namedCommitted request positive member row wasPending
  | finish response held window =>
    refine announceOnce distinct namedCommitted ?_ ?_ allowed.2 window
    · rfl
    · rfl
  | close response writableEnded held window =>
    exact announceOnce distinct namedCommitted rfl rfl allowed.2 window
  | settle operation settled held window =>
    refine announceEnd distinct namedCommitted ?_ ?_ allowed.2 window
    · rfl
    · rfl
  | flushed window =>
    obtain ⟨covered, through, writtenBefore, flying, committed⟩ := allowed
    have stateCovered : state.covered = covered := by rw [State.covered, flying]
    intro request positive member row pendingRow written
    simp only [CommitAnnouncer.step, flying] at member pendingRow
    rw [State.named_announce] at member
    rcases mem_append.mp member with earlier | own
    · exact namedCommitted request positive earlier row pendingRow written
    · -- Written before the flush was called, and still not committed.
      obtain ⟨_, _, before, sameFlight, earlyRow⟩ :=
        notOvertaken request positive (stateCovered ▸ own) row pendingRow written
      have sameBefore : writtenBefore = before := by
        rw [flying] at sameFlight
        injection sameFlight
      have lateRow := committed row pendingRow
      omega
  | failed =>
    obtain ⟨covered, through, writtenBefore, flying⟩ := allowed
    simp only [CommitAnnouncer.step, flying]
    exact namedCommitted
  | landed =>
    simp only [CommitAnnouncer.step]
    split
    · intro request positive member row pendingRow
      obtain ⟨_, _, samePending, sameNamed⟩ :=
        State.announceWhenCommitted_keeps
          { state with announcing := false, again := false, flight := .idle }
      rw [sameNamed] at member
      rw [samePending] at pendingRow
      exact namedCommitted request positive member row pendingRow
    · exact namedCommitted

end NamedCommitted

/-! ## Every run -/

section

variable
  [DecidableEq Request]
  (ticketOf : Request → Int)

/-- The states a worker reaches when each step meets a condition. -/
inductive Reached (condition : State Request → Event Request → Prop)
    (first : State Request) : State Request → Prop where
  | start : Reached condition first first
  | step
      {state : State Request}
      (event : Event Request)
      (earlier : Reached condition first state)
      (met : condition state event) :
      Reached condition first (step ticketOf state event)

/--
What the announcements keep.  Each positive ticket of what ended waits, is covered
by the flush in flight, or is named once; a named request has nothing uncommitted;
each row committed since the worker started is reported once by an announcement
that says it wrote, or is above what was announced; the marks cut the committed
rows where the counts do, one announcement after the other.
-/
structure KeepsEveryWrite (keepsMarks : Bool) (startedAt : Nat)
    (state : State Request) : Prop where
  ticketsPlaced :
    ∀ request ∈ state.ended, 0 < ticketOf request →
      state.finishedTickets.count (ticketOf request) +
          state.covered.count (ticketOf request) +
        state.named.count (ticketOf request) = 1
  namedCommitted : NamedCommitted ticketOf state
  rowsReported :
    ∀ index, startedAt ≤ index → index < state.committed.length →
      state.sent.countP (fun sent => sent.reports index) =
        if index < state.announcedWritten then 1 else 0
  accounted : Accounted keepsMarks startedAt state

/-- The condition under which the announcements keep every write. -/
def AllowedAndNotOvertaken (state : State Request) (event : Event Request) : Prop :=
  Allowed state event ∧ NotOvertaken ticketOf state event

variable {ticketOf}

/-- A run that meets a condition meets a weaker one. -/
theorem Reached.mono {condition weaker : State Request → Event Request → Prop}
    {first state : State Request}
    (implies : ∀ state event, condition state event → weaker state event)
    (reached : Reached ticketOf condition first state) :
    Reached ticketOf weaker first state := by
  induction reached with
  | start => exact .start
  | step event _ met ih => exact .step event ih (implies _ _ met)

section

variable
  {keepsMarks : Bool}
  {pending committed : List (Row Request)}
  {written : Nat}
  {state : State Request}

/-- In every run, overtaken or not, the counts and the marks account for the rows
and no ticket is lost or named twice. -/
theorem Reached.accounted_placed
    (reached :
      Reached ticketOf Allowed
        (State.start keepsMarks pending committed written) state) :
    Accounted keepsMarks committed.length state ∧ Placed ticketOf state := by
  induction reached with
  | start =>
    exact ⟨.ofStart pending committed written, .ofStart keepsMarks pending committed written⟩
  | step event _ allowed ih =>
    obtain ⟨accounted, placed⟩ := ih
    exact ⟨accounted.step ticketOf event, placed.step allowed⟩

/-- In a run that overtakes no request, what is named is committed. -/
theorem Reached.namedCommitted (distinct : DistinctTickets ticketOf)
    (reached :
      Reached ticketOf (AllowedAndNotOvertaken ticketOf)
        (State.start keepsMarks pending committed written) state) :
    NamedCommitted ticketOf state := by
  induction reached with
  | start => exact fun _ _ member => absurd member not_mem_nil
  | step event _ met ih => exact ih.step distinct met.1 met.2

/-- A ticket of something that ended is placed once, as it ended once. -/
theorem Placed.count_ended (distinct : DistinctTickets ticketOf)
    (placed : Placed ticketOf state) {request : Request} (ended : request ∈ state.ended)
    (positive : 0 < ticketOf request) :
    (state.ended.map ticketOf).count (ticketOf request) = 1 := by
  have sameRequest
      (other : Request) :
      (ticketOf other == ticketOf request) = (other == request) := by
    by_cases same : other = request
    · simp [same]
    · have differentTickets : ticketOf other ≠ ticketOf request := by
        intro sameTicket
        exact same (distinct request other positive sameTicket.symm).symm
      simp [same, differentTickets]
  calc
    (state.ended.map ticketOf).count (ticketOf request)
        = state.ended.countP fun other => ticketOf other == ticketOf request := by
      rw [count_eq_countP, countP_map]
      rfl
    _ = state.ended.count request := by
      simp only [sameRequest]
      rfl
    _ = 1 := count_eq_one_of_mem placed.endedOnce ended

theorem keepsEveryWrite_of_reached (distinct : DistinctTickets ticketOf)
    (reached :
      Reached ticketOf (AllowedAndNotOvertaken ticketOf)
        (State.start keepsMarks pending committed written) state) :
    KeepsEveryWrite ticketOf keepsMarks committed.length state := by
  have allowedRun :
      Reached ticketOf Allowed (State.start keepsMarks pending committed written) state :=
    reached.mono fun _ _ met => met.1
  obtain ⟨accounted, placed⟩ := allowedRun.accounted_placed
  refine
    { ticketsPlaced := ?_
      namedCommitted := reached.namedCommitted distinct
      rowsReported := ?_
      accounted := accounted }
  · intro request ended positive
    rw [← State.placed_count, placed.counted _ positive]
    exact placed.count_ended distinct ended positive
  · intro index started _
    rw [accounted.chained.reports_once accounted.toldTruth index]
    simp only [started, true_and]

/-- A step after which what is named is committed has overtaken no request. -/
theorem notOvertaken_of_namedCommitted {event : Event Request}
    (namedCommitted : NamedCommitted ticketOf (step ticketOf state event)) :
    NotOvertaken ticketOf state event := by
  cases event with
  | write kind writer =>
    cases writer with
    | none => trivial
    | some request =>
      intro positive named
      exact namedCommitted request positive named
        ⟨state.written, kind, some request⟩
        (mem_append_right _ mem_cons_self) rfl
  | flushed window =>
    intro request positive member row pendingRow written
    cases flight : state.flight with
    | flying covered through writtenBefore =>
      rw [State.covered, flight] at member
      have named : ticketOf request ∈ (step ticketOf state (.flushed window)).named := by
        simp only [step, flight, State.named_announce]
        exact mem_append_right _ member
      have stillPending : row ∈ (step ticketOf state (.flushed window)).pending := by
        simp only [step, flight]
        exact pendingRow
      exact absurd written (namedCommitted request positive named row stillPending)
    | idle =>
      rw [State.covered, flight] at member
      cases member
    | landing =>
      rw [State.covered, flight] at member
      cases member
  | commit batch rest => trivial
  | finish response held window => trivial
  | close response writableEnded held window => trivial
  | settle operation settled held window => trivial
  | failed => trivial
  | landed => trivial

/--
In every run that overtakes no request every write is kept, and the next step
keeps it exactly where it overtakes none.
-/
theorem announcements_keep_every_write (distinct : DistinctTickets ticketOf)
    (reached :
      Reached ticketOf (AllowedAndNotOvertaken ticketOf)
        (State.start keepsMarks pending committed written) state) :
    KeepsEveryWrite ticketOf keepsMarks committed.length state ∧
      ∀ event, Allowed state event →
        (KeepsEveryWrite ticketOf keepsMarks committed.length
            (step ticketOf state event) ↔
          NotOvertaken ticketOf state event) := by
  refine ⟨keepsEveryWrite_of_reached distinct reached, ?_⟩
  intro event allowed
  constructor
  · intro keeps
    exact notOvertaken_of_namedCommitted keeps.namedCommitted
  · intro notOvertaken
    exact keepsEveryWrite_of_reached distinct (reached.step event ⟨allowed, notOvertaken⟩)

/-- A request's number as its ticket. -/
def numberedTicket (request : Nat) : Int := request

/-- A worker over an empty store. -/
def emptyStart : State Nat := State.start true [] [] 0

/-- A request that wrote, closed early and was flushed once its row had
committed. -/
theorem announcements_keep_every_write_flushed :
    KeepsEveryWrite numberedTicket true 0
      (step numberedTicket
        (step numberedTicket
          (step numberedTicket
            (step numberedTicket emptyStart (.write .other (some 1)))
            (.close 1 false false none))
          (.commit [⟨0, .other, some 1⟩] []))
        (.flushed none)) := by
  have reached :
      Reached numberedTicket (AllowedAndNotOvertaken numberedTicket) emptyStart
        (step numberedTicket
          (step numberedTicket
            (step numberedTicket
              (step numberedTicket emptyStart (.write .other (some 1)))
              (.close 1 false false none))
            (.commit [⟨0, .other, some 1⟩] []))
          (.flushed none)) := by
    refine .step _ (.step _ (.step _ (.step _ .start ?_) ?_) ?_) ?_
    · exact ⟨trivial, fun _ member => absurd member not_mem_nil⟩
    · exact
        ⟨⟨fun member => absurd member not_mem_nil,
          fun held => absurd held Bool.false_ne_true⟩, trivial⟩
    · exact ⟨List.Perm.refl _, trivial⟩
    · refine ⟨⟨[1], 0, 1, rfl, fun _ member => absurd member not_mem_nil⟩, ?_⟩
      exact fun _ _ _ _ member => absurd member not_mem_nil
  have distinct : DistinctTickets numberedTicket := fun _ _ _ same => Int.ofNat.inj same
  exact (announcements_keep_every_write distinct reached).1

/-- A response closed before its `end()`: its handler writes while the flush that
covers its ticket is in flight, and the ticket is named over the row. -/
theorem announcements_overtake_a_running_handler :
    ¬ ∀ state : State Nat,
      Reached numberedTicket Allowed emptyStart state →
        KeepsEveryWrite numberedTicket true 0 state := by
  intro everyRun
  have reached :
      Reached numberedTicket Allowed emptyStart
        (step numberedTicket
          (step numberedTicket
            (step numberedTicket emptyStart (.close 1 false false none))
            (.write .other (some 1)))
          (.flushed none)) := by
    refine .step _ (.step _ (.step _ .start ?_) ?_) ?_
    · exact
        ⟨fun member => absurd member not_mem_nil, fun held => absurd held Bool.false_ne_true⟩
    · trivial
    · exact ⟨[1], 0, 0, rfl, fun _ _ => Nat.zero_le _⟩
  have keeps := everyRun _ reached
  exact keeps.namedCommitted 1 (by decide) mem_cons_self
    ⟨0, .other, some 1⟩ mem_cons_self rfl

end

end

end

end IyaSts.CommitAnnouncer
