import IyaSts.Fallible
import IyaSts.GnapSpendRuns

namespace IyaSts.GnapSpend

open AccessLimits

/-!
# When no limit is passed

The row of a right is all that remembers what was spent.  While it is there, or its period
is not spent in again, the spends that were granted and not refunded stay within the limits.
-/

open List

/-! ## One spend -/

/-- The totals with a spend are those of the row in its period, within the limits. -/
theorem totalsWith_some {held : Option Held} {spent : Spent}
    {limitAmount limitCount : Option Nat} {totals : Nat × Nat}
    (isTotal : totalsWith held spent limitAmount limitCount = some totals) :
    (∀ row, held = some row → row.period ≤ spent.period) ∧
      totals.1 =
        ((held.filter fun row => row.period = spent.period).map Held.amount).getD 0 + spent.amount ∧
      totals.2 =
        ((held.filter fun row => row.period = spent.period).map Held.count).getD 0 + spent.count ∧
      (∀ limit, limitAmount = some limit → totals.1 ≤ limit) ∧
      ∀ limit, limitCount = some limit → totals.2 ≤ limit := by
  unfold totalsWith at isTotal
  simp only at isTotal
  split at isTotal
  · cases isTotal
  · rename_i notLater
    split at isTotal
    · cases isTotal
    · rename_i within
      cases isTotal
      rw [not_or] at within
      refine ⟨fun row isRow => ?_, rfl, rfl, fun limit isLimit => ?_, fun limit isLimit => ?_⟩
      · subst isRow
        simpa using notLater
      · subst isLimit
        simpa using within.1
      · subst isLimit
        simpa using within.2

/-- What is checked is the period of the time, and the units are the operation's. -/
theorem check_ok {engine : DateParse} {limits : Limits} {operation : Operation}
    {now : Int} {period : Period} {read : Nat}
    (isOk : check engine limits operation now = .ok (period, read)) :
    checkPeriod engine limits now = .ok period ∧ read = amountOf operation := by
  unfold check at isOk
  obtain ⟨-, -, afterWindow⟩ := (Fallible.bind_eq_ok_iff _ _ _).mp isOk
  obtain ⟨period', isPeriod, afterPeriod⟩ := (Fallible.bind_eq_ok_iff _ _ _).mp afterWindow
  obtain ⟨-, -, afterReceiver⟩ := (Fallible.bind_eq_ok_iff _ _ _).mp afterPeriod
  obtain ⟨read', isRead, afterAmount⟩ := (Fallible.bind_eq_ok_iff _ _ _).mp afterReceiver
  obtain ⟨-, -, isPair⟩ := (Fallible.bind_eq_ok_iff _ _ _).mp afterAmount
  cases isPair
  refine ⟨isPeriod, ?_⟩
  unfold readAmount at isRead
  unfold amountOf
  cases amount : operation.amount with
  | none =>
    rw [amount] at isRead
    cases isRead
    rfl
  | some text =>
    rw [amount] at isRead
    simp only at isRead
    split at isRead
    · rename_i units isUnits
      cases isRead
      rw [Option.bind_some, isUnits, Option.getD_some]
    · cases isRead

/-- What a spend in a period counts. -/
def spentOf (grant : String) (right : Right) (operation : Operation) (period : Period) : Spent :=
  ⟨keyOf grant right, period.index,
    if (right.limits.amount.bind units).isSome then amountOf operation else 0, 1⟩

/-- A spend leaves the ledger, or counts itself in its row. -/
theorem spend_cases (engine : DateParse) (ledger : Ledger) (now : Int) (grant : String)
    (right : Right) (operation : Operation) (expiresAt : Option Int) :
    ((spend engine ledger now grant right operation expiresAt).1 = ledger ∧
        ∀ spent totals remaining told,
          (spend engine ledger now grant right operation expiresAt).2 ≠
            .granted spent totals remaining told) ∨
      ∃ period totals expiry,
        checkPeriod engine right.limits now = .ok period ∧
          totalsWith (ledger.get (keyOf grant right))
              (spentOf grant right operation period) (right.limits.amount.bind units)
              right.limits.count = some totals ∧
          (spend engine ledger now grant right operation expiresAt).1 =
            ledger.set (keyOf grant right) ⟨period.index, totals.1, totals.2, expiry⟩ ∧
          ∀ spent totals remaining told,
            (spend engine ledger now grant right operation expiresAt).2 =
                .granted spent totals remaining told →
              spent = spentOf grant right operation period := by
  unfold spend
  simp only
  cases isChecked : check engine right.limits operation now with
  | error refusal => exact .inl ⟨rfl, fun _ _ _ _ => by simp⟩
  | ok checked =>
    obtain ⟨period, read⟩ := checked
    obtain ⟨isPeriod, rfl⟩ := check_ok isChecked
    have isSpent :
        (⟨keyOf grant right, period.index,
            if (right.limits.amount.bind units).isSome then amountOf operation else 0,
            1⟩ : Spent) = spentOf grant right operation period := rfl
    simp only [isSpent]
    cases isTotal : totalsWith (ledger.get (keyOf grant right))
        (spentOf grant right operation period) (right.limits.amount.bind units)
        right.limits.count with
    | none =>
      refine .inl ⟨rfl, fun _ _ _ _ => ?_⟩
      unfold overLimit
      simp only
      split
      · simp
      · split <;> simp
    | some totals =>
      refine .inr ⟨period, totals, _, isPeriod, isTotal, rfl, ?_⟩
      intro spent totals' remaining told isGranted
      unfold grantedAnswer at isGranted
      simp only at isGranted
      split at isGranted
      · cases isGranted
        rfl
      · split at isGranted
        · cases isGranted
          rfl
        · cases isGranted

/-- A refund leaves the ledger, or takes itself from its row. -/
theorem refund_cases (ledger : Ledger) (spent : Spent) :
    refund ledger spent = (ledger, false) ∨
      ∃ held,
        ledger.get spent.key = some held ∧ held.period = spent.period ∧
          spent.amount ≤ held.amount ∧ spent.count ≤ held.count ∧
          refund ledger spent =
            (ledger.set spent.key
                { held with
                  amount := held.amount - spent.amount
                  count := held.count - spent.count },
              true) := by
  unfold refund
  split
  · exact .inl rfl
  · cases isHeld : ledger.get spent.key with
    | none => exact .inl rfl
    | some held =>
      simp only
      split
      · exact .inl rfl
      · rename_i matching
        rw [not_or, not_or, not_not] at matching
        exact .inr ⟨held, rfl, matching.1, Nat.not_lt.mp matching.2.1,
          Nat.not_lt.mp matching.2.2, rfl⟩

/-! ## What the ledger counts -/

section

variable {ledger : Ledger} {key : String}

theorem counted_of_get {held : Held} (isHeld : ledger.get key = some held) (value : Held → Nat) :
    counted ledger key held.period value = value held := by
  unfold counted
  rw [isHeld, Option.filter_some_pos (by simp)]
  rfl

variable {period : Int} {ledger' : Ledger}

/-- A row of an earlier period counts nothing. -/
theorem counted_of_earlier (earlier : ∀ held, ledger.get key = some held → held.period < period)
    (value : Held → Nat) :
    counted ledger key period value = 0 := by
  unfold counted
  cases isHeld : ledger.get key with
  | none => rfl
  | some held =>
    have isEarlier := earlier held isHeld
    rw [Option.filter_some_neg (by simpa using isEarlier.ne)]
    rfl

theorem not_closed_of_le (notLater : ∀ held, ledger.get key = some held → held.period ≤ period) :
    ¬ Closed ledger key period := by
  rintro ⟨held, isHeld, isLater⟩
  exact absurd (notLater held isHeld) (Int.not_le.mpr isLater)

theorem counted_congr (same : ledger'.get key = ledger.get key) (period : Int)
    (value : Held → Nat) :
    counted ledger' key period value = counted ledger key period value := by
  unfold counted
  rw [same]

theorem closed_congr (same : ledger'.get key = ledger.get key) (period : Int) :
    Closed ledger' key period ↔ Closed ledger key period := by
  unfold Closed
  rw [same]

end

/-! ## Receipts -/

section

variable {engine : DateParse} {limitsOf : String → String → String → Limits}

/-- What a receipt tells is what was spent. -/
structure IsReceipt (engine : DateParse) (limitsOf : String → String → String → Limits)
    (receipt : Receipt) : Prop where
  key :
    receipt.spent.key =
      keyOf receipt.grant (rightOf limitsOf receipt.grant receipt.type receipt.identifier)
  period :
    periodIndex engine (limitsOf receipt.grant receipt.type receipt.identifier)
      receipt.madeAt = some receipt.spent.period
  amount :
    ((limitsOf receipt.grant receipt.type receipt.identifier).amount.bind units).isSome =
        true →
      receipt.spent.amount = amountOf receipt.operation
  count : receipt.spent.count = 1

variable {receipt : Receipt} {grant type identifier : String} {period now : Int}
    {receipts : List Receipt} {world world' : World} {call : Call} {rest : List Call}
    {index : Nat} {operation : Operation} {expiresAt : Option Int}

/-- What stands of a right is counted under its key. -/
theorem isCounted_of_isStanding (isReceipt : IsReceipt engine limitsOf receipt)
    (stands : isStanding engine limitsOf grant type identifier period receipt = true) :
    isCounted (keyOf grant (rightOf limitsOf grant type identifier)) period receipt =
        true ∧
      grant = receipt.grant ∧ type = receipt.type ∧ identifier = receipt.identifier := by
  unfold isStanding at stands
  obtain ⟨notRefunded, rfl, rfl, rfl, isPeriod⟩ := of_decide_eq_true stands
  cases isReceipt.period.symm.trans isPeriod
  exact ⟨decide_eq_true ⟨notRefunded, isReceipt.key, rfl⟩, rfl, rfl, rfl⟩

theorem standing_amount_le (areReceipts : ∀ receipt ∈ receipts, IsReceipt engine limitsOf receipt)
    {limit : Nat} (isLimit : (limitsOf grant type identifier).amount.bind units = some limit)
    (period : Int) :
    total receipts (isStanding engine limitsOf grant type identifier period)
        (fun receipt => amountOf receipt.operation) ≤
      total receipts
        (isCounted (keyOf grant (rightOf limitsOf grant type identifier)) period)
        (fun receipt => receipt.spent.amount) := by
  refine total_mono fun receipt isOne stands => ?_
  obtain ⟨isCounted, rfl, rfl, rfl⟩ := isCounted_of_isStanding (areReceipts receipt isOne) stands
  refine ⟨isCounted, ?_⟩
  rw [(areReceipts receipt isOne).amount (by rw [isLimit]; rfl)]

theorem standing_count_le (areReceipts : ∀ receipt ∈ receipts, IsReceipt engine limitsOf receipt)
    (grant type identifier : String) (period : Int) :
    total receipts (isStanding engine limitsOf grant type identifier period)
        (fun _ => 1) ≤
      total receipts
        (isCounted (keyOf grant (rightOf limitsOf grant type identifier)) period)
        (fun receipt => receipt.spent.count) := by
  refine total_mono fun receipt isOne stands => ?_
  refine ⟨(isCounted_of_isStanding (areReceipts receipt isOne) stands).1, ?_⟩
  rw [(areReceipts receipt isOne).count]

/-- Of fewer calls to come, less is asked. -/
theorem Kept.tail (kept : Kept engine limitsOf world (call :: rest)) :
    Kept engine limitsOf world rest where
  amount := kept.amount
  count := kept.count
  room := fun key period spends =>
    kept.room key period (spends.imp fun _ later => ⟨mem_cons_of_mem call later.1, later.2⟩)

/-! ## Each call -/

/-- The world a run reaches: true receipts, within the limits. -/
structure Sound (engine : DateParse) (limitsOf : String → String → String → Limits) (world : World)
    (later : List Call) : Prop where
  receipts : ∀ receipt ∈ world.receipts, IsReceipt engine limitsOf receipt
  kept : Kept engine limitsOf world later

/-- Where no spend is added, and the ledger leaves no room, all is kept. -/
theorem Kept.of_less {later later' : List Call} (kept : Kept engine limitsOf world later)
    (less :
      ∀ grant type identifier period value,
        total world'.receipts (isStanding engine limitsOf grant type identifier period)
            value ≤
          total world.receipts (isStanding engine limitsOf grant type identifier period) value)
    (room :
      ∀ key period,
        (∃ call ∈ later', SpendsIn engine limitsOf key period call) →
          LeavesNoRoom world' key period) :
    Kept engine limitsOf world' later' where
  amount := fun grant type identifier period limit isLimit =>
    (less grant type identifier period _).trans
      (kept.amount grant type identifier period limit isLimit)
  count := fun grant type identifier period limit isLimit =>
    (less grant type identifier period _).trans
      (kept.count grant type identifier period limit isLimit)
  room := room

/-- Where the row is as it was and no spend is added, there is no more room. -/
theorem LeavesNoRoom.of_same {key : String} (before : LeavesNoRoom world key period)
    (same : world'.ledger.get key = world.ledger.get key)
    (less :
      ∀ value,
        total world'.receipts (isCounted key period) value ≤
          total world.receipts (isCounted key period) value) :
    LeavesNoRoom world' key period := by
  unfold LeavesNoRoom at before ⊢
  rw [closed_congr same, counted_congr same, counted_congr same]
  exact before.imp_right fun holds => ⟨(less _).trans holds.1, (less _).trans holds.2⟩

/-- A purge that deletes no row that is asked for again. -/
theorem sound_purge (sound : Sound engine limitsOf world (.purge now :: rest))
    (purgesOver : PurgesOver engine limitsOf world rest (.purge now)) :
    Sound engine limitsOf (step engine limitsOf world (.purge now)) rest := by
  refine ⟨sound.receipts, sound.kept.of_less (fun _ _ _ _ _ => Nat.le_refl _) ?_⟩
  intro key period spends
  have before := sound.kept.tail.room key period spends
  have looked :
      (purge world.ledger now).1.get key =
        (world.ledger.get key).filter fun held => now < held.expiresAt :=
    JsMap.get_keep world.ledger (fun _ held => now < held.expiresAt) key
  cases isHeld : world.ledger.get key with
  | none =>
    have same : (purge world.ledger now).1.get key = world.ledger.get key := by
      rw [looked, isHeld]
      rfl
    exact before.of_same same fun _ => Nat.le_refl _
  | some held =>
    by_cases isLive : now < held.expiresAt
    · have same : (purge world.ledger now).1.get key = world.ledger.get key := by
        rw [looked, isHeld, Option.filter_some_pos (by simpa using isLive)]
      exact before.of_same same fun _ => Nat.le_refl _
    · -- The row goes, but what is spent in later is of a later period.
      have isEarlier : held.period < period :=
        purgesOver key held isHeld (Int.not_lt.mp isLive) period spends
      have allEarlier : ∀ other, world.ledger.get key = some other → other.period < period := by
        intro other isOther
        cases isHeld.symm.trans isOther
        exact isEarlier
      rcases before with closed | ⟨amounts, counts⟩
      · exact absurd closed (not_closed_of_le fun other isOther => (allEarlier other isOther).le)
      · rw [counted_of_earlier allEarlier] at amounts counts
        exact .inr ⟨amounts.trans (Nat.zero_le _), counts.trans (Nat.zero_le _)⟩

/-- A spend that is refunded stands no more. -/
theorem total_refunded (isOne : receipts[index]? = some receipt) (test : Receipt → Bool)
    (notTested : test { receipt with refunded := true } = false) (value : Receipt → Nat) :
    total (receipts.set index { receipt with refunded := true }) test value +
        (if test receipt then value receipt else 0) =
      total receipts test value := by
  have changed :=
    @total_set receipts test value index receipt isOne { receipt with refunded := true }
  rw [notTested, if_neg Bool.false_ne_true, Nat.add_zero] at changed
  exact changed

/-- A refund takes a spend from its own period only. -/
theorem sound_refund (sound : Sound engine limitsOf world (.refund index :: rest)) :
    Sound engine limitsOf (step engine limitsOf world (.refund index)) rest := by
  have unchanged : Sound engine limitsOf world rest := ⟨sound.receipts, sound.kept.tail⟩
  unfold step
  simp only
  cases isOne : world.receipts[index]? with
  | none => exact unchanged
  | some receipt =>
    simp only
    by_cases isRefunded : receipt.refunded = true
    · rw [if_pos isRefunded]
      exact unchanged
    rw [if_neg isRefunded]
    rcases refund_cases world.ledger receipt.spent with
      notTaken | ⟨held, isHeld, isPeriod, amountHeld, countHeld, taken⟩
    · rw [notTaken]
      exact unchanged
    rw [taken]
    simp only
    have isReceipt := sound.receipts receipt (mem_of_getElem? isOne)
    refine ⟨?_, sound.kept.of_less ?_ ?_⟩
    · intro other isOther
      rcases mem_or_eq_of_mem_set isOther with isOld | rfl
      · exact sound.receipts other isOld
      · exact ⟨isReceipt.key, isReceipt.period, isReceipt.amount, isReceipt.count⟩
    · intro grant type identifier period value
      have changed :=
        total_refunded isOne (isStanding engine limitsOf grant type identifier period)
          (by simp [isStanding]) value
      exact (Nat.le_add_right _ _).trans_eq changed
    · intro key period spends
      have before := sound.kept.tail.room key period spends
      have changed (value : Receipt → Nat) :=
        total_refunded isOne (isCounted key period) (by simp [isCounted]) value
      have less (value : Receipt → Nat) := (Nat.le_add_right _ _).trans_eq (changed value)
      by_cases isKey : key = receipt.spent.key
      · subst isKey
        have isSet := JsMap.get_set_self world.ledger receipt.spent.key
          { held with
            amount := held.amount - receipt.spent.amount
            count := held.count - receipt.spent.count }
        rcases before with ⟨other, isOther, isLater⟩ | ⟨amounts, counts⟩
        · cases isHeld.symm.trans isOther
          exact .inl ⟨_, isSet, isLater⟩
        · right
          by_cases isSame : period = held.period
          · subst isSame
            have isTested : isCounted receipt.spent.key held.period receipt = true :=
              decide_eq_true ⟨isRefunded, rfl, isPeriod.symm⟩
            have amountChanged := changed fun receipt => receipt.spent.amount
            have countChanged := changed fun receipt => receipt.spent.count
            rw [isTested, if_pos rfl] at amountChanged countChanged
            have heldAmount := counted_of_get isHeld Held.amount
            have heldCount := counted_of_get isHeld Held.count
            have newAmount := counted_of_get isSet Held.amount
            have newCount := counted_of_get isSet Held.count
            simp only at newAmount newCount
            rw [heldAmount] at amounts
            rw [heldCount] at counts
            rw [newAmount, newCount]
            exact ⟨Nat.le_sub_of_add_le (amountChanged.le.trans amounts),
              Nat.le_sub_of_add_le (countChanged.le.trans counts)⟩
          · -- The row is of another period, and counts nothing in this one.
            have none (value : Held → Nat) :
                counted world.ledger receipt.spent.key period value = 0 := by
              unfold counted
              rw [isHeld, Option.filter_some_neg (by simpa using Ne.symm isSame)]
              rfl
            rw [none] at amounts counts
            exact ⟨(less _).trans (amounts.trans (Nat.zero_le _)),
              (less _).trans (counts.trans (Nat.zero_le _))⟩
      · have same := JsMap.get_set_other world.ledger isKey
          { held with
            amount := held.amount - receipt.spent.amount
            count := held.count - receipt.spent.count }
        exact before.of_same same less

/-- The receipt of a spend in a period. -/
def receiptOf (limitsOf : String → String → String → Limits)
    (now : Int) (grant type identifier : String) (operation : Operation)
    (period : Period) : Receipt :=
  ⟨now, grant, type, identifier, operation,
    spentOf grant (rightOf limitsOf grant type identifier) operation period, false⟩

theorem isReceipt_receiptOf {period : Period}
    (isPeriod : checkPeriod engine (limitsOf grant type identifier) now = .ok period)
    (operation : Operation) :
    IsReceipt engine limitsOf
      (receiptOf limitsOf now grant type identifier operation period) where
  key := rfl
  period := by
    unfold periodIndex receiptOf
    simp only
    rw [isPeriod]
    rfl
  amount := fun isLimited => if_pos isLimited
  count := rfl

/-- A spend that was counted, whether or not its answer was written. -/
theorem sound_counted
    (sound :
      Sound engine limitsOf world
        (.spend now grant type identifier operation expiresAt :: rest))
    {period : Period}
    {totals : Nat × Nat}
    (isPeriod : checkPeriod engine (limitsOf grant type identifier) now = .ok period)
    (isTotal :
      totalsWith
        (world.ledger.get (keyOf grant (rightOf limitsOf grant type identifier)))
        (spentOf grant (rightOf limitsOf grant type identifier) operation period)
        ((limitsOf grant type identifier).amount.bind units)
        (limitsOf grant type identifier).count = some totals)
    (expiry : Int)
    (isReceipts :
      receipts = world.receipts ∨
        receipts =
          world.receipts ++
            [receiptOf limitsOf now grant type identifier operation period]) :
    Sound engine limitsOf
      ⟨world.ledger.set (keyOf grant (rightOf limitsOf grant type identifier))
          ⟨period.index, totals.1, totals.2, expiry⟩,
        receipts⟩
      rest := by
  obtain ⟨receipt, isMade⟩ :
      ∃ receipt, receiptOf limitsOf now grant type identifier operation period = receipt :=
    ⟨_, rfl⟩
  have isReceipt : IsReceipt engine limitsOf receipt :=
    isMade ▸ isReceipt_receiptOf isPeriod operation
  have isSpent :
      spentOf grant (rightOf limitsOf grant type identifier) operation period = receipt.spent := by
    rw [← isMade]
    rfl
  have inPeriod :
      periodIndex engine (limitsOf grant type identifier) now = some period.index :=
    (isReceipt_receiptOf isPeriod operation).period
  have isIndex : period.index = receipt.spent.period := congrArg Spent.period isSpent
  have room := sound.kept.room _ period.index ⟨_, mem_cons_self, rfl, inPeriod⟩
  have isKey :
      keyOf grant (rightOf limitsOf grant type identifier) = receipt.spent.key :=
    congrArg Spent.key isSpent
  rw [isMade] at isReceipts
  rw [isSpent, isKey] at isTotal
  rw [isIndex, isKey] at room
  rw [isIndex, isKey]
  have areReceipts : ∀ other ∈ receipts, IsReceipt engine limitsOf other := by
    intro other isOther
    rcases isReceipts with rfl | rfl
    · exact sound.receipts other isOther
    · rcases mem_append.mp isOther with isOld | isNew
      · exact sound.receipts other isOld
      · rw [mem_singleton.mp isNew]
        exact isReceipt
  have added (test : Receipt → Bool) (value : Receipt → Nat) :
      total receipts test value ≤
        total world.receipts test value + if test receipt then value receipt else 0 := by
    rcases isReceipts with rfl | rfl
    · exact Nat.le_add_right _ _
    · exact (total_push receipt).le
  obtain ⟨notLater, amountIs, countIs, amountFits, countFits⟩ := totalsWith_some isTotal
  -- What was counted and is not refunded is in the totals.
  have inTotals :
      total receipts (isCounted receipt.spent.key receipt.spent.period)
          (fun receipt => receipt.spent.amount) ≤ totals.1 ∧
        total receipts (isCounted receipt.spent.key receipt.spent.period)
          (fun receipt => receipt.spent.count) ≤ totals.2 := by
    obtain ⟨amounts, counts⟩ := room.resolve_left (not_closed_of_le notLater)
    have amountAdded := added (isCounted receipt.spent.key receipt.spent.period)
      fun receipt => receipt.spent.amount
    have countAdded := added (isCounted receipt.spent.key receipt.spent.period)
      fun receipt => receipt.spent.count
    have notRefunded : isCounted receipt.spent.key receipt.spent.period receipt = true := by
      rw [← isMade]
      exact decide_eq_true ⟨Bool.false_ne_true, rfl, rfl⟩
    rw [if_pos notRefunded] at amountAdded countAdded
    rw [amountIs, countIs]
    exact ⟨amountAdded.trans (Nat.add_le_add_right amounts _),
      countAdded.trans (Nat.add_le_add_right counts _)⟩
  -- The spend stands of its own right in its own period.
  have standsOnly {grant' type' identifier' : String} {period' : Int}
      (stands : isStanding engine limitsOf grant' type' identifier' period' receipt = true) :
      (grant' = grant ∧ type' = type ∧ identifier' = identifier) ∧
        period' = receipt.spent.period := by
    rw [← isMade] at stands
    obtain ⟨-, sameGrant, sameType, sameIdentifier, inOther⟩ := of_decide_eq_true stands
    cases sameGrant
    cases sameType
    cases sameIdentifier
    rw [← isIndex]
    exact ⟨⟨rfl, rfl, rfl⟩, Option.some.inj (inOther.symm.trans inPeriod)⟩
  refine ⟨areReceipts, ?_, ?_, ?_⟩
  · intro grant' type' identifier' period' limit isLimit
    by_cases stands : isStanding engine limitsOf grant' type' identifier' period' receipt = true
    · obtain ⟨⟨rfl, rfl, rfl⟩, rfl⟩ := standsOnly stands
      have counted := standing_amount_le areReceipts isLimit receipt.spent.period
      rw [isKey] at counted
      exact counted.trans (inTotals.1.trans (amountFits limit isLimit))
    · have less := added (isStanding engine limitsOf grant' type' identifier' period')
        fun receipt => amountOf receipt.operation
      rw [if_neg stands, Nat.add_zero] at less
      exact less.trans (sound.kept.amount _ _ _ _ limit isLimit)
  · intro grant' type' identifier' period' limit isLimit
    by_cases stands : isStanding engine limitsOf grant' type' identifier' period' receipt = true
    · obtain ⟨⟨rfl, rfl, rfl⟩, rfl⟩ := standsOnly stands
      have counted := standing_count_le areReceipts grant' type' identifier' receipt.spent.period
      rw [isKey] at counted
      exact counted.trans (inTotals.2.trans (countFits limit isLimit))
    · have less := added (isStanding engine limitsOf grant' type' identifier' period') fun _ => 1
      rw [if_neg stands, Nat.add_zero] at less
      exact less.trans (sound.kept.count _ _ _ _ limit isLimit)
  · intro key period' spends
    have before := sound.kept.tail.room key period' spends
    have isSet := JsMap.get_set_self world.ledger receipt.spent.key
      (⟨receipt.spent.period, totals.1, totals.2, expiry⟩ : Held)
    by_cases sameKey : key = receipt.spent.key
    · subst sameKey
      rcases lt_trichotomy period' receipt.spent.period with isEarlier | rfl | isLater
      · exact .inl ⟨_, isSet, isEarlier⟩
      · right
        rw [counted_of_get isSet, counted_of_get isSet]
        exact inTotals
      · -- The row was of no later period than the spend, so it counted nothing here.
        have allEarlier : ∀ held,
            world.ledger.get receipt.spent.key = some held → held.period < period' :=
          fun held isHeld => (notLater held isHeld).trans_lt isLater
        have notCounted :
            ¬ isCounted receipt.spent.key period' receipt = true := fun isCounted =>
          isLater.ne (of_decide_eq_true isCounted).2.2
        have less (value : Receipt → Nat) :
            total receipts (isCounted receipt.spent.key period') value ≤
              total world.receipts (isCounted receipt.spent.key period') value := by
          have isAdded := added (isCounted receipt.spent.key period') value
          rw [if_neg notCounted, Nat.add_zero] at isAdded
          exact isAdded
        obtain ⟨amounts, counts⟩ := before.resolve_left
          (not_closed_of_le fun held isHeld => (allEarlier held isHeld).le)
        rw [counted_of_earlier allEarlier] at amounts counts
        exact .inr ⟨(less _).trans (amounts.trans (Nat.zero_le _)),
          (less _).trans (counts.trans (Nat.zero_le _))⟩
    · refine before.of_same (JsMap.get_set_other world.ledger sameKey _) fun value => ?_
      have isAdded := added (isCounted key period') value
      have notCounted : ¬ isCounted key period' receipt = true := fun isCounted =>
        sameKey (of_decide_eq_true isCounted).2.1.symm
      rw [if_neg notCounted, Nat.add_zero] at isAdded
      exact isAdded

/-- A spend is counted in its row, and granted only within the limits. -/
theorem sound_spend
    (sound :
      Sound engine limitsOf world
        (.spend now grant type identifier operation expiresAt :: rest)) :
    Sound engine limitsOf
      (step engine limitsOf world (.spend now grant type identifier operation expiresAt))
      rest := by
  have unchanged : Sound engine limitsOf world rest := ⟨sound.receipts, sound.kept.tail⟩
  have cases' := spend_cases engine world.ledger now grant
    (rightOf limitsOf grant type identifier) operation expiresAt
  unfold step
  simp only
  revert cases'
  generalize spend engine world.ledger now grant (rightOf limitsOf grant type identifier)
    operation expiresAt = outcome
  obtain ⟨ledger, answer⟩ := outcome
  rintro (⟨isLedger, notGranted⟩ | ⟨period, totals, expiry, isPeriod, isTotal, isSet, isSpent⟩)
  · obtain rfl : ledger = world.ledger := isLedger
    cases answer with
    | refused refusal => exact unchanged
    | throws => exact unchanged
    | granted spent totals remaining told => exact absurd rfl (notGranted _ _ _ _)
  · simp only at isSet
    subst isSet
    cases answer with
    | refused refusal => exact sound_counted sound isPeriod isTotal expiry (.inl rfl)
    | throws => exact sound_counted sound isPeriod isTotal expiry (.inl rfl)
    | granted spent totals' remaining told =>
      obtain rfl := isSpent _ _ _ _ rfl
      exact sound_counted sound isPeriod isTotal expiry (.inr rfl)

/-! ## Every run -/

theorem sound_step (sound : Sound engine limitsOf world (call :: rest))
    (purgesOver : PurgesOver engine limitsOf world rest call) :
    Sound engine limitsOf (step engine limitsOf world call) rest := by
  cases call with
  | spend now grant type identifier operation expiresAt => exact sound_spend sound
  | refund index => exact sound_refund sound
  | purge now => exact sound_purge sound purgesOver

theorem sound_run {before after : List Call} (sound : Sound engine limitsOf world (before ++ after))
    (meets : Meets engine limitsOf world (before ++ after)) :
    Sound engine limitsOf (run engine limitsOf world before) after := by
  induction before generalizing world with
  | nil => exact sound
  | cons call rest ih => exact ih (sound_step sound meets.1) meets.2

theorem sound_start (calls : List Call) : Sound engine limitsOf World.start calls where
  receipts := fun receipt isOne => by cases isOne
  kept :=
    { amount := fun _ _ _ _ _ _ => Nat.zero_le _
      count := fun _ _ _ _ _ _ => Nat.zero_le _
      room := fun _ _ _ => .inr ⟨Nat.zero_le _, Nat.zero_le _⟩ }

end

/--
In every run whose purges delete no row of a period that is spent in later, no limit is
passed and no room is made, at any point.
-/
theorem limits_kept (engine : DateParse) (limitsOf : String → String → String → Limits)
    (before after : List Call) (meets : Meets engine limitsOf World.start (before ++ after)) :
    Kept engine limitsOf (run engine limitsOf World.start before) after :=
  (sound_run (sound_start (before ++ after)) meets).kept

/-! ## A row that is purged too early -/

/-- An engine that reads no date. -/
def noDates : DateParse := ⟨fun _ => none, fun _ _ isTime => by cases isTime⟩

/-- Ten euros, for the whole life of the grant. -/
def tenEuros (_ _ _ : String) : Limits := ⟨some "10", some "EUR", none, none, none, none⟩

/-- Ten euros are spent, with no end of the grant recorded. -/
def spendTen (now : Int) : Call := .spend now "g" "payment" "" ⟨some "10", some "EUR", none⟩ none

/-- A day later the row is purged, and ten euros are spent again. -/
theorem tenEuros_passed :
    ¬ Kept noDates tenEuros
        (run noDates tenEuros World.start [spendTen 0, .purge 86400, spendTen 86400]) [] := by
  intro kept
  have within := kept.amount "g" "payment" "" 0 10000000 (by decide +kernel)
  revert within
  decide +kernel

/-- An hour later the row is there, and nothing more is granted. -/
theorem tenEuros_kept :
    Kept noDates tenEuros
        (run noDates tenEuros World.start [spendTen 0, .purge 3600, spendTen 3600]) [] := by
  refine limits_kept noDates tenEuros [spendTen 0, .purge 3600, spendTen 3600] []
    ⟨trivial, ?_, trivial, trivial⟩
  intro key held isHeld isStale
  have live :
      ∀ entry ∈ (step noDates tenEuros World.start (spendTen 0)).ledger.entries,
        3600 < entry.2.expiresAt := by
    decide +kernel
  have isEntry := JsMap.get_eq_some_iff.mp isHeld
  exact absurd isStale (Int.not_le.mpr (live _ isEntry))

end IyaSts.GnapSpend
