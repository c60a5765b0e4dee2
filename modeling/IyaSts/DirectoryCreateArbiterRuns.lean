import IyaSts.DirectoryCreateArbiter

namespace IyaSts.DirectoryCreateArbiter

/-!
# Creates of one node

The front process, its workers, the messages between them and the store their
creates commit to.  Any message may be lost, late or overtaken.
-/

/-- A process that claims. -/
inductive Party where
  | front
  | worker (pid : String)
  deriving DecidableEq

/-- The holder name of a process. -/
def Party.holder : Party → String
  | .front => DirectoryCreateArbiter.front
  | .worker pid => holderOf pid

/-- A create that has committed, and the claim it was made under. -/
structure Create where
  key : String
  holder : String
  reservation : Nat
  deriving DecidableEq

/-- A claim its holder knows it has. -/
structure Holding where
  party : Party
  reservation : Nat
  keys : List String
  /-- The release it was told to catch up with. -/
  through : Option Nat
  /-- What the store held when its pull began. -/
  pulling : Option (List Create)
  pulled : Bool

/-- The holder was told of no catch-up, or has finished it. -/
def Holding.ready (holding : Holding) : Bool := holding.through.isNone || holding.pulled

/-- What a grant was given for, and which creates of its keys were not seen. -/
structure Grant where
  holder : String
  keys : List String
  catchUp : Bool
  unseen : List Create

/-- The front's memory, the store, and what each holder's directory holds. -/
structure Node where
  arbiter : Arbiter
  store : List Create
  directories : List (String × Create)

/-- All of a node.  The grants, and those not given back, are only observed. -/
structure World extends Node where
  now : Int
  workers : String → Worker
  toFront : List (String × Message)
  toWorkers : List (String × Reply)
  holdings : List Holding
  grants : List Grant
  outstanding : List (String × Live)

namespace World

/-- Before anything is claimed. -/
def start : World where
  arbiter := .new
  store := []
  directories := []
  now := 0
  workers := fun _ => .new
  toFront := []
  toWorkers := []
  holdings := []
  grants := []
  outstanding := []

/-- Changes one worker. -/
def setWorker (world : World) (pid : String) (worker : Worker) : World :=
  { world with workers := Function.update world.workers pid worker }

/-- Observes a grant. -/
def observe (world : World) (holder : String) (keys : List String) (ttlMs : Int) (answer : Answer) :
    World :=
  match answer with
  | .granted reservation through =>
    { world with
      grants := world.grants ++
        [{ holder, keys, catchUp := through.isSome,
           unseen := world.store.filter fun create =>
             create.key ∈ keys && (holder, create) ∉ world.directories }]
      outstanding := world.outstanding ++ keys.map fun key =>
        (key,
          { holder, reservation,
            expiresAt := world.now + Arbiter.lifetime ttlMs }) }
  | _ => world

/-- Observes that keys of a claim were given back. -/
def unobserve (world : World) (holder : String) (reservation : Nat) (keys : List String) : World :=
  { world with
    outstanding := world.outstanding.filter fun claim =>
      !(claim.1 ∈ keys && claim.2.holder = holder && claim.2.reservation = reservation) }

end World

/-- What can happen. -/
inductive Event where
  | tick (by_ : Nat)
  | ask (party : Party) (keys : List String) (ttlMs : Int) (sent : Bool)
  | receive (index : Nat) (delivered : Bool)
  | loseMessage (index : Nat)
  | answered (index : Nat)
  | loseReply (index : Nat)
  | giveUp (pid : String) (id : Nat)
  | startPull (index : Nat)
  | finishPull (index : Nat)
  | commit (index : Nat) (key : String)
  | give (index : Nat) (committed : Bool)
  | exit (pid : String)
  | follow (holder : String) (index : Nat)

/-- A process asks for a claim: the front process decides its own at once. -/
def stepAsk (world : World) (party : Party) (keys : List String) (ttlMs : Int) (sent : Bool) :
    World :=
  match party with
  | .front =>
    let (answer, arbiter) := world.arbiter.decide world.now front keys ttlMs
    let observed := world.observe front keys ttlMs answer
    match answer with
    | .granted reservation through =>
      { observed with
        arbiter
        holdings := world.holdings ++
          [{ party := .front, reservation, keys, through,
             pulling := none, pulled := false }] }
    | _ => { observed with arbiter }
  | .worker pid =>
    if (world.workers pid).exited then
      world
    else
      let (message, worker) := (world.workers pid).ask keys ttlMs sent
      match message with
      | some message =>
        { world.setWorker pid worker with
          toFront := world.toFront ++ [(pid, message)] }
      | none => world.setWorker pid worker

/-- A claim arrives at the front process, which answers it. -/
def stepReceiveClaim (world : World) (pid : String) (id : Nat) (keys : List String)
    (ttlMs : Int) (delivered : Bool) :
    World :=
  let (reply, arbiter) := world.arbiter.receiveClaim world.now (holderOf pid) id keys ttlMs
  let observed := world.observe (holderOf pid) keys ttlMs reply.answer
  if delivered then
    { observed with
      arbiter
      toWorkers := world.toWorkers ++ [(pid, reply)] }
  else
    match reply.answer with
    | .granted reservation _ =>
      { observed.unobserve (holderOf pid) reservation reply.keys with
        arbiter := arbiter.takeBack (holderOf pid) reply }
    | _ => { observed with arbiter }

/-- A release arrives at the front process. -/
def stepReceiveRelease (world : World) (pid : String) (reservation : Nat)
    (keys : List String) (committed : Bool) :
    World :=
  let arbiter := world.arbiter.receiveRelease (holderOf pid) reservation keys committed
  match keysOf keys with
  | none => { world with arbiter }
  | some keys =>
    { world.unobserve (holderOf pid) reservation keys with arbiter }

/-- A message arrives at the front process. -/
def stepReceive (world : World) (index : Nat) (delivered : Bool) : World :=
  match world.toFront[index]? with
  | none => world
  | some (pid, message) =>
    let taken := { world with toFront := world.toFront.eraseIdx index }
    match message with
    | .claim id keys ttlMs => stepReceiveClaim taken pid id keys ttlMs delivered
    | .release reservation keys committed => stepReceiveRelease taken pid reservation keys committed
    | .caughtUp through =>
      { taken with
        arbiter := world.arbiter.caughtUpTo (holderOf pid) through }

/-- An answer arrives at a worker. -/
def stepAnswered (world : World) (index : Nat) : World :=
  match world.toWorkers[index]? with
  | none => world
  | some (pid, reply) =>
    let taken := { world with toWorkers := world.toWorkers.eraseIdx index }
    if (world.workers pid).exited then
      taken
    else
      let (arrival, worker) := (world.workers pid).answered reply
      let told := taken.setWorker pid worker
      match arrival with
      | .held reservation keys through =>
        { told with
          holdings := world.holdings ++
            [{ party := .worker pid, reservation, keys, through,
               pulling := none, pulled := false }] }
      | .givenBack message =>
        { told with toFront := world.toFront ++ [(pid, message)] }
      | .refused => told
      | .dropped => told

/-- A holder that was told to begins to catch up with the store. -/
def stepStartPull (world : World) (index : Nat) : World :=
  match world.holdings[index]? with
  | none => world
  | some holding =>
    if holding.through.isSome && holding.pulling.isNone then
      { world with
        holdings :=
          world.holdings.set index
            { holding with pulling := some world.store } }
    else
      world

/-- Tells the front process that a catch-up has finished: `caughtUp`. -/
def tellCaughtUp (world : World) (party : Party) (through : Nat) : World :=
  match party with
  | .front =>
    { world with arbiter := world.arbiter.caughtUpTo front through }
  | .worker pid =>
    { world with toFront := world.toFront ++ [(pid, .caughtUp through)] }

/-- A catch-up has finished: the directory holds what the store held. -/
def stepFinishPull (world : World) (index : Nat) : World :=
  match world.holdings[index]? with
  | none => world
  | some holding =>
    match holding.through, holding.pulling with
    | some through, some pulling =>
      let pulled :=
        { world with
          directories := world.directories ++
            pulling.map fun create => (holding.party.holder, create)
          holdings := world.holdings.set index { holding with pulled := true } }
      tellCaughtUp pulled holding.party through
    | _, _ => world

/-- A create commits.  It is in its holder's directory, but for the front's. -/
def stepCommit (world : World) (index : Nat) (key : String) : World :=
  match world.holdings[index]? with
  | none => world
  | some holding =>
    if key ∈ holding.keys then
      let create : Create :=
        { key, holder := holding.party.holder,
          reservation := holding.reservation }
      { world with
        store := world.store ++ [create]
        directories :=
          match holding.party with
          | .front => world.directories
          | .worker pid => world.directories ++ [(holderOf pid, create)] }
    else
      world

/-- A holder gives its claim back: `give`. -/
def stepGive (world : World) (index : Nat) (committed : Bool) : World :=
  match world.holdings[index]? with
  | none => world
  | some holding =>
    let given := { world with holdings := world.holdings.eraseIdx index }
    match holding.party with
    | .front =>
      { given.unobserve front holding.reservation holding.keys with
        arbiter := (world.arbiter.settle front holding.reservation holding.keys committed).2 }
    | .worker pid =>
      { given with
        toFront := world.toFront ++ [(pid, .release holding.reservation holding.keys committed)] }

/-- A worker exits, and the front process drops what it held. -/
def stepExit (world : World) (pid : String) : World :=
  let gone := { world.workers pid with asking := [], exited := true }
  { world.setWorker pid gone with
    arbiter := (world.arbiter.workerExited pid).2
    holdings := world.holdings.filter fun holding => holding.party ≠ .worker pid
    outstanding := world.outstanding.filter fun claim => claim.2.holder ≠ holderOf pid }

/-- What happens at an event. -/
def step (world : World) : Event → World
  | .tick by_ => { world with now := world.now + by_ }
  | .ask party keys ttlMs sent => stepAsk world party keys ttlMs sent
  | .receive index delivered => stepReceive world index delivered
  | .loseMessage index =>
    { world with toFront := world.toFront.eraseIdx index }
  | .answered index => stepAnswered world index
  | .loseReply index =>
    { world with toWorkers := world.toWorkers.eraseIdx index }
  | .giveUp pid id => world.setWorker pid ((world.workers pid).giveUp id)
  | .startPull index => stepStartPull world index
  | .finishPull index => stepFinishPull world index
  | .commit index key => stepCommit world index key
  | .give index committed => stepGive world index committed
  | .exit pid => stepExit world pid
  | .follow holder index =>
    match world.store[index]? with
    | none => world
    | some create =>
      { world with
        directories := world.directories ++ [(holder, create)] }

/-- What a run comes to. -/
def run (events : List Event) : World := events.foldl step .start

/-! ## What is asked of a run, and of its steps -/

/-- No two grants that have not run out are for one key. -/
def NoOverlap (world : World) : Prop :=
  ∀ first ∈ world.outstanding, ∀ second ∈ world.outstanding,
    first.1 = second.1 →
      world.now < first.2.expiresAt → world.now < second.2.expiresAt → first.2 = second.2

/-- Whoever was granted a key whose creates it had not seen was told. -/
def MissesNone (world : World) : Prop :=
  ∀ grant ∈ world.grants, grant.unseen ≠ [] → grant.catchUp = true

/-- A create has committed under a claim of the table. -/
def guards (world : World) (key : String) (held : Live) : Bool :=
  { key, holder := held.holder, reservation := held.reservation : Create } ∈ world.store

/-- The claim of a holder is in the table, and has not run out. -/
def holds (world : World) (holding : Holding) (key : String) : Bool :=
  match world.arbiter.live.get key with
  | none => false
  | some held =>
    held.holder = holding.party.holder &&
      held.reservation = holding.reservation && world.now < held.expiresAt

/-- No claim whose create has committed has run out. -/
def unexpired (world : World) : Bool :=
  world.arbiter.live.entries.all fun claim =>
    !guards world claim.1 claim.2 || world.now < claim.2.expiresAt

/-- No create has committed under keys of a claim. -/
def uncommitted (world : World) (holder : String) (reservation : Nat) (keys : List String) : Bool :=
  keys.all fun key => { key, holder, reservation : Create } ∉ world.store

/--
A step at which a create commits does so under a claim that has not run out.
-/
def outlived (world : World) : Event → Bool
  | .commit index key =>
    match world.holdings[index]? with
    | none => true
    | some holding => holds world holding key
  | _ => true

/--
A step that takes no claim whose create has committed, but for the release that
says so, of a holder that has caught up if it was told to.
-/
def careful (world : World) : Event → Bool
  | .ask .front _ _ _ => unexpired world
  | .receive index _ =>
    match world.toFront[index]? with
    | some (_, .claim _ _ _) => unexpired world
    | some (pid, .release reservation keys false) =>
      uncommitted world (holderOf pid) reservation keys
    | _ => true
  | .give index committed =>
    match world.holdings[index]? with
    | none => true
    | some holding =>
      if committed then
        holding.ready
      else
        holding.party ≠ .front || uncommitted world front holding.reservation holding.keys
  | .exit pid =>
    world.arbiter.live.entries.all fun claim =>
      claim.2.holder ≠ holderOf pid || !guards world claim.1 claim.2
  | _ => true

/-- Every step of a run passes a test in the world it starts from. -/
def Every (test : World → Event → Bool) (world : World) :
    List Event → Prop
  | [] => True
  | event :: rest => test world event = true ∧ Every test (step world event) rest

end IyaSts.DirectoryCreateArbiter
