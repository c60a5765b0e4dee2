import Mathlib.Data.List.Basic
import Mathlib.Data.List.Count
import Mathlib.Data.List.Perm.Basic

namespace IyaSts.CommitAnnouncer

/-!
# A request worker's commit announcements

`common/commit_announcer.ts` between the responses and operations a worker ends
and the store it writes to.  Requests, their rows and the store's commits are the
world around it; a row has a number, in the order the rows are written.  What an
announcement was read between is recorded beside it and is read by no step.
-/

/-! ## The store -/

/-- A directory entry's realm and key. -/
structure Key where
  realm : String
  key : String
  deriving DecidableEq

/-- The kinds of change rows the store tells apart. -/
inductive RowKind where
  | directory (key : Key)
  | mintedOwn
  | other
  deriving DecidableEq

/-- A change row: its number, its kind and the request it was written for. -/
structure Row (Request : Type) where
  serial : Nat
  kind : RowKind
  writer : Option Request
  deriving DecidableEq

/-- Where the committed rows stand, by kind. -/
structure Mark where
  other : Nat
  directory : Nat
  deriving DecidableEq

/-- How many committed directory rows are kept. -/
def committedDirectoryLimit : Nat := 4096

section

variable {Request : Type}

def Row.isOther (row : Row Request) : Bool := row.kind = .other

def Row.directoryKey (row : Row Request) : Option Key :=
  match row.kind with
  | .directory key => some key
  | _ => none

/-- The keys of the directory rows, in order. -/
def directoryKeys (rows : List (Row Request)) : List Key := rows.filterMap Row.directoryKey

/-- `committedMark`, of the rows committed so far. -/
def committedMark (rows : List (Row Request)) : Mark where
  other := rows.countP Row.isOther
  directory := (directoryKeys rows).length

/-- `committedDirectory`: the last of them. -/
def committedDirectory (rows : List (Row Request)) : List Key :=
  (directoryKeys rows).drop ((directoryKeys rows).length - committedDirectoryLimit)

/-- `committedSince(mark).directory`; absent where some are no longer kept. -/
def directorySince (rows : List (Row Request)) (mark : Mark) : Option (List Key) :=
  let kept := (directoryKeys rows).length - (committedDirectory rows).length
  if mark.directory < kept then
    none
  else
    some ((committedDirectory rows).drop (mark.directory - kept))

/-- Each key once, where it is first. -/
def distinctKeys : List Key → List Key → List Key
  | _, [] => []
  | seen, key :: rest =>
    if key ∈ seen then
      distinctKeys seen rest
    else
      key :: distinctKeys (key :: seen) rest

/-- The keys, where all of them are windowed. -/
def allWindowed (window : Option (Key → Bool)) (keys : List Key) : Option (List Key) :=
  match window with
  | none => none
  | some isWindowed => if keys.all isWindowed then some (distinctKeys [] keys) else none

/-- `committedChangesSince(mark).windowedKeys`. -/
def windowedKeysSince (window : Option (Key → Bool)) (rows : List (Row Request))
    (mark : Mark) : Option (List Key) :=
  if mark.other < (committedMark rows).other then
    none
  else
    match directorySince rows mark with
    | none => none
    | some keys => allWindowed window keys

/-! ## The announcer -/

/-- The message an announcement is. -/
structure Announcement where
  wrote : Bool
  through : Nat
  tickets : List Int
  answered : Bool
  windowedKeys : Option (List Key)

/-- An announcement that was sent, with the counts and the marks it was read
between. -/
structure Sent where
  message : Announcement
  above : Nat
  upTo : Nat
  readFrom : Option Mark
  readTo : Option Mark

/-- The flush an announcement waits for, and the turn after it. -/
inductive Flight where
  | idle
  | flying (covered : List Int) (through : Nat) (writtenBefore : Nat)
  | landing
  deriving DecidableEq

/-- The worker: the announcer's fields, the store's rows and what was sent. -/
structure State (Request : Type) where
  finishedTickets : List Int
  finishedCount : Nat
  announcing : Bool
  again : Bool
  announcedWritten : Nat
  changeMark : Option Mark
  flight : Flight
  /-- The responses `announceOnce` has announced. -/
  announcedFor : List Request
  /-- The rows written so far, those not committed and those committed. -/
  written : Nat
  pending : List (Row Request)
  committed : List (Row Request)
  /-- The requests that have ended, and the announcements sent. -/
  ended : List Request
  sent : List Sent

namespace State

/-- The worker as `start()` builds its announcer, over a store that has written
and committed before; without marks where the store keeps none. -/
def start (keepsMarks : Bool) (pending committed : List (Row Request))
    (written : Nat) : State Request where
  finishedTickets := []
  finishedCount := 0
  announcing := false
  again := false
  announcedWritten := committed.length
  changeMark := if keepsMarks then some (committedMark committed) else none
  flight := .idle
  announcedFor := []
  written := written
  pending := pending
  committed := committed
  ended := []
  sent := []

/-- The tickets the flush in flight covers. -/
def covered (state : State Request) : List Int :=
  match state.flight with
  | .flying covered _ _ => covered
  | _ => []

/-- The tickets that were named. -/
def named (state : State Request) : List Int := state.sent.flatMap fun sent => sent.message.tickets

/-- An announcement: the committed count, the kinds since the last mark, and the
message with them. -/
def announce (state : State Request) (window : Option (Key → Bool))
    (through : Nat) (tickets : List Int)
    (answered : Bool) : State Request :=
  let committedNow := state.committed.length
  let announcedWritten := max state.announcedWritten committedNow
  let changeMark := state.changeMark.map fun _ => committedMark state.committed
  { state with
    announcedWritten := announcedWritten
    changeMark := changeMark
    sent := state.sent ++
      [{ message :=
          { wrote := state.announcedWritten < committedNow
            through := through
            tickets := tickets
            answered := answered
            windowedKeys := state.changeMark.bind (windowedKeysSince window state.committed) }
         above := state.announcedWritten
         upTo := announcedWritten
         readFrom := state.changeMark
         readTo := changeMark }] }

/-- `announceAnswered`, where answers are held for their commit. -/
def announceAnswered (state : State Request) (window : Option (Key → Bool))
    (ticket : Int) : State Request :=
  state.announce window state.finishedCount (if 0 < ticket then [ticket] else []) true

/-- `countFinished`. -/
def countFinished (state : State Request) : State Request :=
  { state with finishedCount := state.finishedCount + 1 }

/-- `noteTicket`. -/
def noteTicket (state : State Request) (ticket : Int) : State Request :=
  if 0 < ticket then
    { state with finishedTickets := state.finishedTickets ++ [ticket] }
  else
    state

/-- `announceWhenCommitted`, up to the flush it starts. -/
def announceWhenCommitted (state : State Request) : State Request :=
  if state.announcing then
    { state with again := true }
  else
    { state with
      announcing := true
      finishedTickets := []
      flight := .flying state.finishedTickets state.finishedCount state.written }

/-- A ticket goes out with its answer, or waits for a flush. -/
def announceEnd (state : State Request) (window : Option (Key → Bool)) (ticket : Int)
    (answered : Bool) : State Request :=
  let noted :=
    if answered then
      state.announceAnswered window ticket
    else
      state.noteTicket ticket
  noted.announceWhenCommitted

/-- `announceOnce`, of one response. -/
def announceOnce [DecidableEq Request] (state : State Request) (window : Option (Key → Bool))
    (response : Request) (ticket : Int)
    (answered : Bool) : State Request :=
  if response ∈ state.announcedFor then
    state
  else
    { state with
      announcedFor := response :: state.announcedFor
      ended := response :: state.ended }.announceEnd window ticket answered

end State

/-! ## What can happen -/

/-- What happens to a worker.  `held` is what `answersAfterCommit()` answers. -/
inductive Event (Request : Type) where
  | write (kind : RowKind) (writer : Option Request)
  | commit (batch rest : List (Row Request))
  | finish (response : Request) (held : Bool) (window : Option (Key → Bool))
  | close (response : Request) (writableEnded held : Bool) (window : Option (Key → Bool))
  | settle (operation : Request) (settled held : Bool) (window : Option (Key → Bool))
  | flushed (window : Option (Key → Bool))
  | failed
  | landed

section

variable
  [DecidableEq Request]
  (ticketOf : Request → Int)

/-- One step of the worker. -/
def step (state : State Request) : Event Request → State Request
  | .write kind writer =>
    { state with
      written := state.written + 1
      pending := state.pending ++ [⟨state.written, kind, writer⟩] }
  | .commit batch rest =>
    { state with
      pending := rest
      committed := state.committed ++ batch }
  | .finish response held window =>
    state.countFinished.announceOnce window response (ticketOf response) held
  | .close response writableEnded held window =>
    state.announceOnce window response (ticketOf response) (writableEnded && held)
  | .settle operation settled held window =>
    { state with ended := operation :: state.ended }.countFinished.announceEnd
      window (ticketOf operation) (settled && held)
  | .flushed window =>
    match state.flight with
    | .flying covered through _ =>
      { state with flight := .landing }.announce window through covered false
    | _ => state
  | .failed =>
    match state.flight with
    | .flying covered _ _ =>
      { state with
        flight := .landing
        finishedTickets := covered ++ state.finishedTickets }
    | _ => state
  | .landed =>
    let landed := { state with announcing := false, flight := .idle }
    if state.again then
      { landed with again := false }.announceWhenCommitted
    else
      landed

/-- Nothing a request wrote is uncommitted. -/
def AllCommitted (state : State Request) (request : Request) : Prop :=
  ∀ row ∈ state.pending, row.writer ≠ some request

/--
What the world around the announcer keeps to: rows are committed in any order;
an answer that is held for its commit is sent after it; a response is no
operation, and an operation ends once; a flush that resolves has committed what
was written before it was called.
-/
def Allowed (state : State Request) : Event Request → Prop
  | .write _ _ => True
  | .commit batch rest => state.pending.Perm (batch ++ rest)
  | .finish response held _ =>
    (response ∈ state.ended → response ∈ state.announcedFor) ∧
      (held = true → AllCommitted state response)
  | .close response writableEnded held _ =>
    (response ∈ state.ended → response ∈ state.announcedFor) ∧
      ((writableEnded && held) = true → AllCommitted state response)
  | .settle operation settled held _ =>
    operation ∉ state.ended ∧ ((settled && held) = true → AllCommitted state operation)
  | .flushed _ =>
    ∃ covered through writtenBefore,
      state.flight = .flying covered through writtenBefore ∧
        ∀ row ∈ state.pending, writtenBefore ≤ row.serial
  | .failed => ∃ covered through writtenBefore, state.flight = .flying covered through writtenBefore
  | .landed => state.flight = .landing

/--
No request is overtaken: what it wrote after the flush that covers its ticket
was called is committed when that flush resolves, and once its ticket is named it
writes nothing more.
-/
def NotOvertaken (state : State Request) : Event Request → Prop
  | .write _ (some request) => 0 < ticketOf request → ticketOf request ∉ state.named
  | .flushed _ =>
    ∀ request, 0 < ticketOf request → ticketOf request ∈ state.covered →
      ∀ row ∈ state.pending,
        row.writer = some request →
          ∃ covered through writtenBefore,
            state.flight = .flying covered through writtenBefore ∧ row.serial < writtenBefore
  | _ => True

end

end

end IyaSts.CommitAnnouncer
