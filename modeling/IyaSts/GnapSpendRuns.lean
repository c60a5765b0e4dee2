import IyaSts.GnapSpend

namespace IyaSts.GnapSpend

open AccessLimits

/-!
# Runs of spends, refunds and purges

Each spend that was granted leaves a receipt, by which it may be refunded once.  What the
receipts come to is compared with the limits and with what the ledger counts.
-/

/-! ## Runs -/

/-- A spend that was granted, and what has become of it. -/
structure Receipt where
  madeAt : Int
  grant : String
  type : String
  identifier : String
  operation : Operation
  spent : Spent
  refunded : Bool

/-- The ledger and the spends that were granted. -/
structure World where
  ledger : Ledger
  receipts : List Receipt

/-- A call of the module. -/
inductive Call where
  | spend (now : Int) (grant type identifier : String) (operation : Operation)
      (expiresAt : Option Int)
  /-- Of the spend that was granted so many spends after the first. -/
  | refund (index : Nat)
  | purge (now : Int)

/-- Nothing was spent yet. -/
def World.start : World := ⟨JsMap.empty, []⟩

section

variable (engine : DateParse)

-- The limits of each right of each grant, of its type and its identifier.
variable (limitsOf : String → String → String → Limits)

/-- A right, with its limits. -/
def rightOf (grant type identifier : String) : Right :=
  ⟨type, identifier, limitsOf grant type identifier⟩

/-- The index of the period of a time. -/
def periodIndex (limits : Limits) (now : Int) : Option Int :=
  (checkPeriod engine limits now).toOption.map Period.index

/-- One call.  A spend that was refunded is not refunded again. -/
def step (world : World) : Call → World
  | .spend now grant type identifier operation expiresAt =>
    match spend engine world.ledger now grant (rightOf limitsOf grant type identifier)
        operation expiresAt with
    | (ledger, .granted spent _ _ _) =>
      ⟨ledger, world.receipts ++ [⟨now, grant, type, identifier, operation, spent, false⟩]⟩
    | (ledger, _) => ⟨ledger, world.receipts⟩
  | .refund index =>
    match world.receipts[index]? with
    | some receipt =>
      if receipt.refunded then
        world
      else
        match refund world.ledger receipt.spent with
        | (ledger, true) => ⟨ledger, world.receipts.set index { receipt with refunded := true }⟩
        | (ledger, false) => ⟨ledger, world.receipts⟩
    | none => world
  | .purge now => ⟨(purge world.ledger now).1, world.receipts⟩

/-- These calls, in their order. -/
def run (world : World) (calls : List Call) : World := calls.foldl (step engine limitsOf) world

/-! ## What is claimed -/

/-- The units of an operation's amount. -/
def amountOf (operation : Operation) : Nat := (operation.amount.bind units).getD 0

/-- What some of the spends come to. -/
def total (receipts : List Receipt) (test : Receipt → Bool) (value : Receipt → Nat) : Nat :=
  ((receipts.filter test).map value).sum

/-- A spend of a right in a period, that is not refunded. -/
def isStanding (grant type identifier : String) (period : Int) (receipt : Receipt) : Bool :=
  ¬ receipt.refunded ∧ receipt.grant = grant ∧ receipt.type = type ∧
    receipt.identifier = identifier ∧
    periodIndex engine (limitsOf grant type identifier) receipt.madeAt = some period

/-- A spend that a row of this key and period counts, if it is there. -/
def isCounted (key : String) (period : Int) (receipt : Receipt) : Bool :=
  ¬ receipt.refunded ∧ receipt.spent.key = key ∧ receipt.spent.period = period

/-- What the ledger counts of a key in a period. -/
def counted (ledger : Ledger) (key : String) (period : Int) (value : Held → Nat) : Nat :=
  (((ledger.get key).filter fun held => held.period = period).map value).getD 0

/-- The ledger grants nothing more of a period: its row is of a later one. -/
def Closed (ledger : Ledger) (key : String) (period : Int) : Prop :=
  ∃ held, ledger.get key = some held ∧ period < held.period

/-- The ledger leaves no room in a period that was not given back. -/
def LeavesNoRoom (world : World) (key : String) (period : Int) : Prop :=
  Closed world.ledger key period ∨
    (total world.receipts (isCounted key period) (fun receipt => receipt.spent.amount) ≤
        counted world.ledger key period Held.amount ∧
      total world.receipts (isCounted key period) (fun receipt => receipt.spent.count) ≤
        counted world.ledger key period Held.count)

/-- A spend of a key in a period that the call makes. -/
def SpendsIn (key : String) (period : Int) : Call → Prop
  | .spend now grant type identifier _ _ =>
    keyOf grant (rightOf limitsOf grant type identifier) = key ∧
      periodIndex engine (limitsOf grant type identifier) now = some period
  | _ => False

/-- What is spent is within the limits, and what is still spent finds no room made. -/
structure Kept (world : World) (later : List Call) : Prop where
  amount :
    ∀ grant type identifier period limit,
      (limitsOf grant type identifier).amount.bind units = some limit →
        total world.receipts (isStanding engine limitsOf grant type identifier period)
          (fun receipt => amountOf receipt.operation) ≤ limit
  count :
    ∀ grant type identifier period limit,
      (limitsOf grant type identifier).count = some limit →
        total world.receipts (isStanding engine limitsOf grant type identifier period)
          (fun _ => 1) ≤ limit
  room :
    ∀ key period,
      (∃ call ∈ later, SpendsIn engine limitsOf key period call) → LeavesNoRoom world key period

/-- A purge that deletes no row of a period that is spent in later, or of a later one. -/
def PurgesOver (world : World) (later : List Call) : Call → Prop
  | .purge now =>
    ∀ key held,
      world.ledger.get key = some held →
        held.expiresAt ≤ now →
          ∀ period, (∃ call ∈ later, SpendsIn engine limitsOf key period call) →
            held.period < period
  | _ => True

/-- A run whose purges all are so. -/
def Meets (world : World) : List Call → Prop
  | [] => True
  | call :: rest =>
    PurgesOver engine limitsOf world rest call ∧ Meets (step engine limitsOf world call) rest

end

/-! ## Totals -/

section Totals

variable {receipts : List Receipt} {test : Receipt → Bool} {value : Receipt → Nat}

variable (receipt : Receipt)

theorem total_cons :
    total (receipt :: receipts) test value =
    (if test receipt then value receipt else 0) + total receipts test value := by
  unfold total
  by_cases isTested : test receipt = true
  · simp [isTested]
  · simp [isTested]

theorem total_push :
    total (receipts ++ [receipt]) test value =
      total receipts test value + if test receipt then value receipt else 0 := by
  unfold total
  by_cases isTested : test receipt = true
  · simp [isTested]
  · simp [isTested]

/-- One spend is changed. -/
theorem total_set {index : Nat} {receipt : Receipt} (isOne : receipts[index]? = some receipt)
    (receipt' : Receipt) :
    total (receipts.set index receipt') test value +
        (if test receipt then value receipt else 0) =
      total receipts test value + if test receipt' then value receipt' else 0 := by
  induction receipts generalizing index with
  | nil => cases isOne
  | cons first rest ih =>
    cases index with
    | zero =>
      cases isOne
      rw [List.set_cons_zero, total_cons, total_cons]
      omega
    | succ index =>
      have later := ih isOne
      rw [List.set_cons_succ, total_cons, total_cons]
      omega

/-- Fewer of the spends come to less. -/
theorem total_mono {test' : Receipt → Bool} {value' : Receipt → Nat}
    (less :
      ∀ receipt ∈ receipts, test receipt = true →
        test' receipt = true ∧ value receipt ≤ value' receipt) :
    total receipts test value ≤ total receipts test' value' := by
  induction receipts with
  | nil => exact Nat.le_refl _
  | cons first rest ih =>
    have restLess := ih fun receipt isRest => less receipt (List.mem_cons_of_mem _ isRest)
    rw [total_cons, total_cons]
    by_cases isTested : test first = true
    · obtain ⟨isTested', valueLess⟩ := less first List.mem_cons_self isTested
      rw [if_pos isTested, if_pos isTested']
      omega
    · rw [if_neg isTested]
      omega

end Totals

end IyaSts.GnapSpend
