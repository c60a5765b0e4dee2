import Mathlib.Algebra.Group.Nat.Defs
import Mathlib.Data.List.Basic
import Mathlib.Logic.Function.Basic

namespace IyaSts.SeqAllocator

/-!
# Sequence numbers leased from a shared counter, `seq_allocator.ts`

Each process numbers the rows of its streams from its caller's counter, from
blocks it leases, or from a range of its own.  A promise's callbacks are
events of their own, so that calls and the store's answers interleave with
them in every order.
-/

/-- `BLOCK`. -/
def block : Nat := 1000

/-- `FALLBACK_BASE`. -/
def fallbackBase : Nat := 2 ^ 52

/-- `ORIGIN_SPAN`. -/
def originSpan : Nat := 2 ^ 31

/-- `ORIGIN_SLOTS`. -/
def originSlots : Nat := 2 ^ 20

/-- `STREAMS`. -/
def streamNames : List String := ["audit", "delegation"]

/-- A number that `next` hands out, by where it comes from. -/
inductive Number where
  /-- The caller's own counter. -/
  | caller (count : Nat)
  /-- A leased block. -/
  | leased (value : Nat)
  /-- The range of an origin index. -/
  | fallback (index count : Nat)
  deriving DecidableEq

/-- The number itself. -/
def Number.value : Number → Nat
  | .caller count => count
  | .leased value => value
  | .fallback index count => fallbackBase + (index % originSlots) * originSpan + count % originSpan

/-- `Range`, whose `end` is its last number. -/
structure Range where
  next : Nat
  last : Nat
  deriving DecidableEq

/-- `Stream`. -/
structure Stream where
  current : Option Range
  spare : Option Range
  leasing : Bool
  fallback : Bool
  fallbackNext : Nat
  deriving DecidableEq

/-- A stream that `streamOf` makes. -/
def Stream.new : Stream where
  current := none
  spare := none
  leasing := false
  fallback := false
  fallbackNext := 0

/-- `left` of `prefetch`: what is left of the current block. -/
def Stream.left (stream : Stream) : Nat :=
  match stream.current with
  | some range => range.last + 1 - range.next
  | none => 0

/-- The first statement of `next`: a spent block makes way for the spare. -/
def Stream.turn (stream : Stream) : Stream :=
  match stream.current with
  | some range =>
    if range.last < range.next then
      { stream with current := stream.spare, spare := none }
    else
      stream
  | none => { stream with current := stream.spare, spare := none }

/-- How far a lease has come. -/
inductive Stage where
  | waiting
  /-- The store has counted it, and the answer is on its way. -/
  | counted (count : Nat)
  /-- The answer, or the failure, was handled. -/
  | handled
  deriving DecidableEq

/-- A call of `lease` whose promise has not resolved. -/
structure Lease where
  stream : String
  /-- `start` waits for it. -/
  starts : Bool
  stage : Stage
  deriving DecidableEq

/-- How far `start` has come. -/
inductive Starting where
  /-- The origin index is asked for, or counted. -/
  | origin (counted : Option Nat)
  /-- Streams are left to be leased, and one is waited for or not. -/
  | chain (index : Nat) (rest : List String) (waiting : Bool)
  /-- Only `starting` is left to be cleared. -/
  | closing
  deriving DecidableEq

/-- `SeqAllocator`; a stream that is not in the map is a new one. -/
structure Instance where
  streams : String → Stream
  originIndex : Option Nat
  shared : Bool
  starting : Option Starting
  leases : List Lease

namespace Instance

/-- The instance that the constructor makes. -/
def new : Instance where
  streams := fun _ => Stream.new
  originIndex := none
  shared := false
  starting := none
  leases := []

/-- Changes one stream. -/
def setStream (inst : Instance) (name : String) (stream : Stream) : Instance :=
  { inst with streams := Function.update inst.streams name stream }

/-- `lease`; `loads` tells whether the counters can be loaded. -/
def lease (inst : Instance) (name : String) (starts loads : Bool) : Instance :=
  if loads then
    { inst.setStream name { inst.streams name with leasing := true } with
      leases := inst.leases ++ [⟨name, starts, .waiting⟩] }
  else
    inst.setStream name { inst.streams name with leasing := false }

/-- `prefetch`. -/
def prefetch (inst : Instance) (name : String) (loads : Bool) : Instance :=
  let stream := inst.streams name
  if stream.spare.isNone ∧ stream.leasing = false ∧
      stream.fallback = false ∧ stream.left < block / 2 then
    inst.lease name false loads
  else
    inst

/-- `start`; `shares` tells whether the counters share their windows. -/
def start (inst : Instance) (shares : Bool) : Instance :=
  if inst.shared ∨ inst.starting.isSome ∨ shares = false then
    inst
  else
    { inst with starting := some (.origin none) }

/-- `startLater`. -/
def startLater (inst : Instance) (shares : Bool) : Instance :=
  if inst.starting.isNone ∧ shares then inst.start shares else inst

/-- A number of the fallback range. -/
def nextFallback (inst : Instance) (name : String) (stream : Stream) : Number × Instance :=
  (.fallback (inst.originIndex.getD 0) stream.fallbackNext, inst.setStream name
      { stream with
        fallback := true
        fallbackNext := stream.fallbackNext + 1 })

/-- `next`, with what the caller's own counter would answer. -/
def next (inst : Instance) (name : String) (counted : Nat)
    (shares loads : Bool) : Number × Instance :=
  if inst.shared = false then
    (.caller counted, inst.startLater shares)
  else
    let stream := inst.streams name
    if stream.fallback then
      inst.nextFallback name stream
    else
      let stream := stream.turn
      match stream.current with
      | some range =>
        if range.next ≤ range.last then
          (.leased range.next, (inst.setStream name
              { stream with
                current := some { range with next := range.next + 1 } }).prefetch
              name loads)
        else
          inst.nextFallback name stream
      | none => inst.nextFallback name stream

/-- The block that a count of the store stands for. -/
def rangeOf (count : Nat) : Range where
  next := (count - 1) * block + 1
  last := count * block

/-- A leased block is placed as the current block or as the spare. -/
def place (inst : Instance) (name : String) (count : Nat) : Instance :=
  let stream := inst.streams name
  match stream.current with
  | none => inst.setStream name { stream with current := some (rangeOf count) }
  | some _ => inst.setStream name { stream with spare := some (rangeOf count) }

/-- A start that fails drops its streams. -/
def fail (inst : Instance) : Instance :=
  { inst with
    streams := fun _ => Stream.new
    starting := some .closing }

/-- The next callback of the chain of `start`. -/
def proceed (inst : Instance) (loads : Bool) : Instance :=
  match inst.starting with
  | some (.chain index (name :: rest) false) =>
    { inst.lease name true loads with
      starting := some (.chain index rest loads) }
  | some (.chain index [] false) =>
    let inst := { inst with originIndex := some index }
    if streamNames.all fun name => (inst.streams name).current.isSome then
      { inst with shared := true, starting := some .closing }
    else
      inst.fail
  | _ => inst

end Instance

/-! ## Any number of processes over one counter -/

/-- The rows of the store's counters. -/
inductive Key where
  | origin
  | block (stream : String)
  deriving DecidableEq

/-- The processes, the shared counters and what was handed out so far. -/
structure World where
  instances : Nat → Instance
  /-- Who was counted under each key, in order: the count is the length. -/
  counts : Key → List Nat
  /-- What each caller's own counter has counted. -/
  locals : Nat → String → Nat
  handed : Nat → List (String × Number)

namespace World

/-- Before anything has happened. -/
def start : World where
  instances := fun _ => Instance.new
  counts := fun _ => []
  locals := fun _ _ => 0
  handed := fun _ => []

/-- Changes one process. -/
def setInstance (world : World) (process : Nat) (inst : Instance) : World :=
  { world with instances := Function.update world.instances process inst }

/-- The store counts a process under a key. -/
def count (world : World) (key : Key) (process : Nat) : World :=
  { world with
    counts := Function.update world.counts key (world.counts key ++ [process]) }

end World

/-- What can happen. -/
inductive Event where
  | next (process : Nat) (name : String) (shares loads : Bool)
  | start (process : Nat) (shares : Bool)
  | countOrigin (process : Nat)
  | answerOrigin (process : Nat) (ok : Bool)
  | proceed (process : Nat) (loads : Bool)
  | countLease (process index : Nat)
  | answerLease (process index : Nat) (ok : Bool)
  | settleLease (process index : Nat)
  | close (process : Nat)
  deriving DecidableEq

/-- A process asks for the next number of a stream. -/
def stepNext (world : World) (process : Nat) (name : String) (shares loads : Bool) : World :=
  let counted := world.locals process name + 1
  let (number, inst) := (world.instances process).next name counted shares loads
  let locals :=
    match number with
    | .caller _ =>
      Function.update world.locals process (Function.update (world.locals process) name counted)
    | _ => world.locals
  { world.setInstance process inst with
    locals := locals
    handed := Function.update world.handed process (world.handed process ++ [(name, number)]) }

/-- The answer to the request for an origin index arrives, or a failure. -/
def stepAnswerOrigin (world : World) (process : Nat) (ok : Bool) : World :=
  let inst := world.instances process
  match inst.starting with
  | some (.origin counted) =>
    if ok then
      match counted with
      | some index =>
        world.setInstance process
          { inst with
            starting := some (.chain index (streamNames.flatMap fun name => [name, name]) false) }
      | none => world
    else
      world.setInstance process inst.fail
  | _ => world

/-- The store counts a lease that waits. -/
def stepCountLease (world : World) (process index : Nat) : World :=
  let inst := world.instances process
  match inst.leases[index]? with
  | some lease =>
    match lease.stage with
    | .waiting =>
      let key := Key.block lease.stream
      let count := (world.counts key).length + 1
      (world.count key process).setInstance process
        { inst with
          leases := inst.leases.set index { lease with stage := .counted count } }
    | _ => world
  | none => world

/-- The answer to a lease arrives, or a failure. -/
def stepAnswerLease (world : World) (process index : Nat) (ok : Bool) : World :=
  let inst := world.instances process
  match inst.leases[index]? with
  | some lease =>
    let inst :=
      { inst with
        leases := inst.leases.set index { lease with stage := .handled } }
    match lease.stage, ok with
    | .counted count, true => world.setInstance process (inst.place lease.stream count)
    | .counted _, false => world.setInstance process inst
    | .waiting, false => world.setInstance process inst
    | _, _ => world
  | none => world

/-- The last callback of a lease runs, and the chain of `start` goes on. -/
def stepSettleLease (world : World) (process index : Nat) : World :=
  let inst := world.instances process
  match inst.leases[index]? with
  | some lease =>
    match lease.stage with
    | .handled =>
      let stream := inst.streams lease.stream
      let inst :=
        { inst.setStream lease.stream { stream with leasing := false } with
          leases := inst.leases.eraseIdx index }
      let starting :=
        match lease.starts, inst.starting with
        | true, some (.chain origin rest _) => some (.chain origin rest false)
        | _, starting => starting
      world.setInstance process { inst with starting := starting }
    | _ => world
  | none => world

/-- What an event leaves; one that cannot happen leaves everything. -/
def step (world : World) : Event → World
  | .next process name shares loads => stepNext world process name shares loads
  | .start process shares => world.setInstance process ((world.instances process).start shares)
  | .countOrigin process =>
    let inst := world.instances process
    match inst.starting with
    | some (.origin none) =>
      let count := (world.counts .origin).length + 1
      (world.count .origin process).setInstance process
        { inst with starting := some (.origin (some count)) }
    | _ => world
  | .answerOrigin process ok => stepAnswerOrigin world process ok
  | .proceed process loads => world.setInstance process ((world.instances process).proceed loads)
  | .countLease process index => stepCountLease world process index
  | .answerLease process index ok => stepAnswerLease world process index ok
  | .settleLease process index => stepSettleLease world process index
  | .close process =>
    let inst := world.instances process
    match inst.starting with
    | some .closing => world.setInstance process { inst with starting := none }
    | _ => world

/-- What a run of events leaves. -/
def run (events : List Event) : World := events.foldl step World.start

/-- The numbers a process has handed out for a stream, in order. -/
def numbersOf (handed : List (String × Number)) (name : String) : List Number :=
  (handed.filter fun one => one.1 = name).map Prod.snd

end IyaSts.SeqAllocator
