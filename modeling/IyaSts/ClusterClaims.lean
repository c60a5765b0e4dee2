import Mathlib.Data.List.Basic
import Mathlib.Logic.Function.Basic

namespace IyaSts.ClusterClaims

/-!
# Single-use claims in one process, `cluster_claims.js`

Without a shared store a claim is a row of this process's memory.  Every call
reads and writes the memory before it yields, so a run is a sequence of calls.
-/

/-- `MEMORY_SWEEP_EVERY`. -/
def memorySweepEvery : Nat := 256

/-- `MAX_TTL_MS`. -/
def maxTtlMs : Int := 30 * 24 * 60 * 60 * 1000

/-- The digest of a text, under the keystore's key or under none: base64url. -/
structure Digest where
  of : String → String
  plain : ∀ text, '\x00' ∉ (of text).toList

/-- `digestOf`. -/
def digestOf (digest : Digest) (scope value : String) : String := digest.of (scope ++ "\n" ++ value)

/-- `memoryKey`. -/
def memoryKey (scope realmId digest : String) : String :=
  scope ++ "\x00" ++ realmId ++ "\x00" ++ digest

/-- One row of the memory. -/
structure Row where
  reservation : String
  claimedAt : Int
  expiresAt : Int
  deriving DecidableEq

/-- `memory`. -/
abbrev Memory := String → Option Row

/-- The module's variables. -/
structure State where
  memory : Memory
  claimsSinceSweep : Nat

/-- What `claim` answers, for `release`. -/
structure Handle where
  scope : String
  realm : String
  key : String
  reservation : String
  deriving DecidableEq

/-- A value to be claimed; `none` is undefined, null or the empty text. -/
structure Entry where
  scope : String
  value : Option String
  deriving DecidableEq

/--
The options of `claimMany`.  `ttlMs` is the floor of the number that is given,
zero where it is none.
-/
structure ManyOpts where
  entries : List Entry
  ttlMs : Int
  realm : Option String

/-- The options of `claim`. -/
structure Opts where
  entry : Entry
  ttlMs : Int
  realm : Option String

/-- What a call reads of its surroundings. -/
structure Moment where
  /-- `Date.now()`. -/
  now : Int
  /-- `realms.currentId()`. -/
  currentId : String
  /-- `randomBytes(12)`, as text. -/
  reservation : String
  deriving DecidableEq

/-- What a call answers. -/
inductive Answer where
  | claimed (handles : List Handle) (claimedAt : Int)
  | used (claimedAt expiresAt : Int)
  | usedAt (index : Nat)
  | store (why : String)
  | released (count : Nat)
  | swept
  deriving DecidableEq

/-- The lifetime a claim is given. -/
def lifetime (ttlMs : Int) : Int := min maxTtlMs (max 1000 ttlMs)

/-- The row of a key, unless its lifetime is over. -/
def liveRow (memory : Memory) (key : String) (now : Int) : Option Row :=
  (memory key).filter fun row => decide (now < row.expiresAt)

/-- `sweepMemory`. -/
def sweepMemory (now : Int) (memory : Memory) : Memory := fun key => liveRow memory key now

/-- One more claim, and the sweep it may bring. -/
def countClaim (now : Int) (state : State) : State :=
  if state.claimsSinceSweep + 1 ≥ memorySweepEvery then
    ⟨sweepMemory now state.memory, 0⟩
  else
    ⟨state.memory, state.claimsSinceSweep + 1⟩

/-- `claim`, without a store. -/
def claim (digest : Digest) (moment : Moment) (opts : Opts) (state : State) : Answer × State :=
  match opts.entry.value with
  | none => (.store "a claim needs a scope and a value", state)
  | some value =>
    if opts.entry.scope = "" then
      (.store "a claim needs a scope and a value", state)
    else
      let scope := opts.entry.scope
      let realmId := opts.realm.getD moment.currentId
      let key := digestOf digest scope value
      let state := countClaim moment.now state
      let place := memoryKey scope realmId key
      match liveRow state.memory place moment.now with
      | some existing => (.used existing.claimedAt existing.expiresAt, state)
      | none =>
        (.claimed [⟨scope, realmId, key, moment.reservation⟩] moment.now,
          { state with
            memory :=
              Function.update state.memory place
                (some ⟨moment.reservation, moment.now, moment.now + lifetime opts.ttlMs⟩) })

/-- `claimInProcess`, without a store: what `claim` answers, at once. -/
def claimInProcess : Digest → Moment → Opts → State → Answer × State := claim

/-- A value's handle in `claimMany`. -/
def handleOf (digest : Digest) (realmId reservation : String) (entry : Entry) : Handle where
  scope := entry.scope
  realm := realmId
  key := digestOf digest entry.scope (entry.value.getD "")
  reservation := reservation

/-- The key of a handle's row. -/
def Handle.place (handle : Handle) : String := memoryKey handle.scope handle.realm handle.key

/-- `claimMany`, without a store. -/
def claimMany (digest : Digest) (moment : Moment) (opts : ManyOpts)
    (state : State) : Answer × State :=
  let malformed :=
    opts.entries.isEmpty || opts.entries.any fun one => one.scope = "" || one.value.isNone
  if malformed then
    (.store "a claim needs a scope and a value for every entry", state)
  else
    let realmId := opts.realm.getD moment.currentId
    let handles := opts.entries.map (handleOf digest realmId moment.reservation)
    let state := countClaim moment.now state
    let keys := handles.map Handle.place
    let held := keys.findIdx? fun key => (liveRow state.memory key moment.now).isSome
    match held with
    | some index => (.usedAt index, state)
    | none =>
      let row : Row := ⟨moment.reservation, moment.now, moment.now + lifetime opts.ttlMs⟩
      (.claimed handles moment.now,
        { state with
          memory :=
            keys.foldl (fun memory key => Function.update memory key (some row)) state.memory })

/-- `release`, without a store; there may be no handle. -/
def release (handle : Option Handle) (state : State) : Bool × State :=
  match handle with
  | none => (false, state)
  | some handle =>
    if handle.key = "" then
      (false, state)
    else
      match state.memory handle.place with
      | none => (false, state)
      | some row =>
        if row.reservation = handle.reservation then
          (true,
            { state with
              memory := Function.update state.memory handle.place none })
        else
          (false, state)

/-- `list.map(release)`, and how many were released. -/
def releaseEach : List Handle → State → Nat × State
  | [], state => (0, state)
  | handle :: rest, state =>
    let (released, state) := release (some handle) state
    let (count, state) := releaseEach rest state
    (released.toNat + count, state)

/-- `releaseMany`, without a store. -/
def releaseMany (handles : List (Option Handle)) (state : State) : Nat × State :=
  releaseEach (handles.filterMap fun handle => handle.filter fun one => one.key ≠ "") state

/-- `isClaimed`, without a store. -/
def isClaimed (digest : Digest) (now : Int) (scope realmId value : String) (state : State) : Bool :=
  (liveRow state.memory (memoryKey scope realmId (digestOf digest scope value)) now).isSome

/-! ## Runs -/

/-- A call of the module. -/
inductive Call where
  | claim (opts : Opts)
  | claimInProcess (opts : Opts)
  | claimMany (opts : ManyOpts)
  | release (handle : Option Handle)
  | releaseMany (handles : List (Option Handle))
  | sweep

/-- What a call answers and leaves. -/
def step (digest : Digest) (moment : Moment) (call : Call) (state : State) : Answer × State :=
  match call with
  | .claim opts => claim digest moment opts state
  | .claimInProcess opts => claimInProcess digest moment opts state
  | .claimMany opts => claimMany digest moment opts state
  | .release handle =>
    let (released, state) := release handle state
    (.released released.toNat, state)
  | .releaseMany handles =>
    let (count, state) := releaseMany handles state
    (.released count, state)
  | .sweep => (.swept, { state with memory := sweepMemory moment.now state.memory })

/-- The memory of a process that has started. -/
def start : State where
  memory := fun _ => none
  claimsSinceSweep := 0

end IyaSts.ClusterClaims
