import IyaSts.Json
import IyaSts.JsMap
import Mathlib.Logic.Function.Basic

namespace IyaSts.DirectoryCreateArbiter

/-!
# Create claims of one node, decided in memory

The front process decides which of its workers may create a name, and who must
catch up with the store before it looks.  A worker asks over its channel.
-/

/-- `MAX_LIVE`. -/
def maxLive : Nat := 16384

/-- `MAX_SETTLED`. -/
def maxSettled : Nat := 8192

/-- `MAX_KEYS`. -/
def maxKeys : Nat := 64

/-- `FRONT`. -/
def front : String := "front"

/-- `holderOf`, of the worker with a process or thread number. -/
def holderOf (pid : String) : String := "worker:" ++ pid

/-- A live claim on one key. -/
structure Live where
  holder : String
  reservation : Nat
  expiresAt : Int
  deriving DecidableEq

/-- The last committed create of one key. -/
structure Settled where
  seq : Nat
  holder : String
  deriving DecidableEq

/--
What a claim is answered.  A grant that tells its holder to catch up says
through which release.
-/
inductive Answer where
  | granted (reservation : Nat) (through : Option Nat)
  | used (index : Nat)
  | store (code why : String)
  deriving DecidableEq

/-! ## The front process's side -/

/-- What the front process remembers. -/
structure Arbiter where
  live : JsMap String Live
  settled : JsMap String Settled
  pulledThrough : JsMap String Nat
  seq : Nat
  forgottenThrough : Nat
  nextReservation : Nat
  full : Bool

namespace Arbiter

/-- Nothing is held. -/
def new : Arbiter where
  live := .empty
  settled := .empty
  pulledThrough := .empty
  seq := 0
  forgottenThrough := 0
  nextReservation := 0
  full := false

/-- `sweep`. -/
def sweep (arbiter : Arbiter) (now : Int) : Arbiter :=
  { arbiter with live := arbiter.live.keep fun _ held => now < held.expiresAt }

/-- The release a holder has caught up with. -/
def since (arbiter : Arbiter) (holder : String) : Nat := (arbiter.pulledThrough.get holder).getD 0

/-- `mustCatchUp`. -/
def mustCatchUp (arbiter : Arbiter) (holder : String) (keys : List String) : Bool :=
  let since := arbiter.since holder
  if arbiter.forgottenThrough > since then
    true
  else
    keys.any fun key =>
      match arbiter.settled.get key with
      | none => false
      | some last => last.seq > since && (holder = front || last.holder ≠ holder)

/-- A key that is held, and whose lifetime has not passed. -/
def isHeld (arbiter : Arbiter) (now : Int) (key : String) : Bool :=
  match arbiter.live.get key with
  | none => false
  | some held => held.expiresAt > now

/-- Takes every key of a claim. -/
def take (live : JsMap String Live) (keys : List String) (claim : Live) : JsMap String Live :=
  keys.foldl (fun live key => live.set key claim) live

/-- The lifetime a claim is given. -/
def lifetime (ttlMs : Int) : Int := max 1000 ttlMs

/-- `decide`, once there is room. -/
def decideWithin (arbiter : Arbiter) (now : Int) (holder : String) (keys : List String)
    (ttlMs : Int) :
    Answer × Arbiter :=
  match keys.findIdx? (arbiter.isHeld now) with
  | some index => (.used index, { arbiter with full := false })
  | none =>
    let reservation := arbiter.nextReservation + 1
    let taken :=
      { arbiter with
        full := false
        nextReservation := reservation
        live :=
          take arbiter.live keys
            { holder, reservation, expiresAt := now + lifetime ttlMs } }
    let through := if taken.mustCatchUp holder keys then some taken.seq else none
    (.granted reservation through, taken)

/-- `decide`. -/
def decide (arbiter : Arbiter) (now : Int) (holder : String) (keys : List String) (ttlMs : Int) :
    Answer × Arbiter :=
  let swept :=
    if arbiter.live.size + keys.length > maxLive then
      arbiter.sweep now
    else
      arbiter
  if swept.live.size + keys.length > maxLive then
    (.store "STS-LDAP-0144"
        "the front process holds as many create claims as it may",
      { swept with full := true })
  else
    swept.decideWithin now holder keys ttlMs

/-- `caughtUpTo`. -/
def caughtUpTo (arbiter : Arbiter) (holder : String) (through : Nat) : Arbiter :=
  let reached := min arbiter.seq through
  if reached > arbiter.since holder then
    { arbiter with pulledThrough := arbiter.pulledThrough.set holder reached }
  else
    arbiter

/-- One key of `settle`, and how many were given back until then. -/
def settleKey (holder : String) (reservation : Nat) (committed : Bool)
    (state : Nat × Arbiter) (key : String) :
    Nat × Arbiter :=
  let (released, arbiter) := state
  match arbiter.live.get key with
  | none => state
  | some held =>
    if held.holder ≠ holder ∨ held.reservation ≠ reservation then
      state
    else
      let freed := { arbiter with live := arbiter.live.delete key }
      if committed then
        let seq := arbiter.seq + 1
        (released + 1,
          { freed with
            seq
            settled := (arbiter.settled.delete key).set key { seq, holder } })
      else
        (released + 1, freed)

/--
Forgets the oldest of the remembered creates while there are too many, at most
a number of times.
-/
def forget : Nat → Arbiter → Arbiter
  | 0, arbiter => arbiter
  | times + 1, arbiter =>
    if arbiter.settled.size > maxSettled then
      match arbiter.settled.oldest with
      | none => arbiter
      | some (key, was) =>
        forget times
          { arbiter with
            forgottenThrough := max arbiter.forgottenThrough was.seq
            settled := arbiter.settled.delete key }
    else
      arbiter

/-- `settle`. -/
def settle (arbiter : Arbiter) (holder : String) (reservation : Nat) (keys : List String)
    (committed : Bool) :
    Nat × Arbiter :=
  let (released, freed) := keys.foldl (settleKey holder reservation committed) (0, arbiter)
  (released, freed.forget freed.settled.size)

/-- `dropHolder`. -/
def dropHolder (arbiter : Arbiter) (holder : String) : Nat × Arbiter :=
  let live := arbiter.live.keep fun _ held => held.holder ≠ holder
  (arbiter.live.size - live.size,
    { arbiter with
      live
      pulledThrough := arbiter.pulledThrough.delete holder })

/-- `workerExited`. -/
def workerExited (arbiter : Arbiter) (pid : String) : Nat × Arbiter :=
  arbiter.dropHolder (holderOf pid)

end Arbiter

/-! ## Messages -/

/-- `keysOf`: the keys of a message that names a short list of them. -/
def keysOf (keys : List String) : Option (List String) :=
  if keys ≠ [] ∧ keys.length ≤ maxKeys ∧
      keys.all (fun key => key ≠ "" && (Json.codeUnits key).length ≤ 4096)
  then
    some keys
  else
    none

/-- What a worker sends the front process. -/
inductive Message where
  | claim (id : Nat) (keys : List String) (ttlMs : Int)
  | release (reservation : Nat) (keys : List String) (committed : Bool)
  | caughtUp (through : Nat)
  deriving DecidableEq

/-- What the front process sends a worker. -/
structure Reply where
  id : Nat
  keys : List String
  answer : Answer
  deriving DecidableEq

namespace Arbiter

/-- `receive` of a claim: the answer, and what it is a reply with. -/
def receiveClaim (arbiter : Arbiter) (now : Int) (holder : String) (id : Nat)
    (keys : List String) (ttlMs : Int) :
    Reply × Arbiter :=
  match keysOf keys with
  | none =>
    ({ id, keys := [],
        answer := .store "STS-LDAP-0093" "the claim named no keys this arbiter can hold" },
      arbiter)
  | some keys =>
    let (answer, decided) := arbiter.decide now holder keys ttlMs
    match answer with
    | .granted _ _ => ({ id, keys, answer }, decided)
    | _ => ({ id, keys := [], answer }, decided)

/-- Gives back what a worker was granted that has gone before the answer. -/
def takeBack (arbiter : Arbiter) (holder : String) (reply : Reply) : Arbiter :=
  match reply.answer with
  | .granted reservation _ => (arbiter.settle holder reservation reply.keys false).2
  | _ => arbiter

/-- `receive` of a release. -/
def receiveRelease (arbiter : Arbiter) (holder : String) (reservation : Nat)
    (keys : List String) (committed : Bool) :
    Arbiter :=
  match keysOf keys with
  | none => arbiter
  | some keys => (arbiter.settle holder reservation keys committed).2

end Arbiter

/-! ## A worker's side -/

/-- A worker: the questions that wait for an answer, and whether it is gone. -/
structure Worker where
  asking : List Nat
  nextQuestion : Nat
  exited : Bool

/-- A worker that has asked nothing. -/
def Worker.new : Worker where
  asking := []
  nextQuestion := 1
  exited := false

/-- `ask`, in a worker: the question, and who waits for its answer. -/
def Worker.ask (worker : Worker) (keys : List String) (ttlMs : Int) (sent : Bool) :
    Option Message × Worker :=
  let id := worker.nextQuestion
  let asked := { worker with nextQuestion := id + 1 }
  if sent then
    (some (.claim id keys ttlMs), { asked with asking := worker.asking ++ [id] })
  else
    (none, asked)

/--
What an answer comes to: it is waited for, given back, or neither.  A grant
names the keys that were asked for.
-/
inductive Arrival where
  | held (reservation : Nat) (keys : List String) (through : Option Nat)
  | refused
  | givenBack (message : Message)
  | dropped
  deriving DecidableEq

/-- `answered`. -/
def Worker.answered (worker : Worker) (reply : Reply) : Arrival × Worker :=
  if reply.id ∈ worker.asking then
    let waited := { worker with asking := worker.asking.erase reply.id }
    match reply.answer with
    | .granted reservation through => (.held reservation reply.keys through, waited)
    | _ => (.refused, waited)
  else
    match reply.answer with
    | .granted reservation _ => (.givenBack (.release reservation reply.keys false), worker)
    | _ => (.dropped, worker)

/-- A question has waited for `ANSWER_MS`. -/
def Worker.giveUp (worker : Worker) (id : Nat) : Worker :=
  { worker with asking := worker.asking.erase id }

end IyaSts.DirectoryCreateArbiter
