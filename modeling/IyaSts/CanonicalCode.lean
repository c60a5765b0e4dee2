import Mathlib.Algebra.GroupWithZero.Nat
import Mathlib.Data.List.Induction
import Mathlib.Data.List.Nodup
import Mathlib.Data.List.Perm.Basic
import Mathlib.Data.List.Sort

namespace IyaSts.CanonicalCode

/-!
# Canonical prefix codes

Codes are handed out to symbols by their lengths, and symbols of one length in
their own order.  Of all patterns of the greatest length a symbol has those its
code begins, which is one interval after the other; together they are every
pattern exactly where the lengths meet Kraft's equality.
-/

open List

section Intervals

variable
    {σ : Type}
    (depth : Nat)
    (lengths : σ → Nat)

/-- How many patterns a symbol's code begins. -/
def span (symbol : σ) : Nat := 2 ^ (depth - lengths symbol)

/-- How many patterns the codes of symbols begin. -/
def total (symbols : List σ) : Nat := (symbols.map (span depth lengths)).sum

variable
    {depth lengths}

@[simp] theorem total_nil : total depth lengths [] = 0 := rfl

@[simp] theorem total_cons (symbol : σ) (rest : List σ) :
    total depth lengths (symbol :: rest) =
      span depth lengths symbol + total depth lengths rest := by
  simp [total]

@[simp] theorem total_append (first second : List σ) :
    total depth lengths (first ++ second) =
      total depth lengths first + total depth lengths second := by
  simp [total]

variable (depth lengths) in
theorem span_pos (symbol : σ) : 0 < span depth lengths symbol := Nat.two_pow_pos _

/-- A symbol that is no longer than another begins whole multiples of its. -/
theorem span_dvd {symbol other : σ} (notLonger : lengths symbol ≤ lengths other) :
    span depth lengths other ∣ span depth lengths symbol :=
  Nat.pow_dvd_pow 2 (by omega)

variable (depth) in
/-- The patterns in front of a symbol are whole multiples of its own. -/
theorem span_dvd_total {symbols : List σ} {symbol : σ}
    (notLonger : ∀ other ∈ symbols, lengths other ≤ lengths symbol) :
    span depth lengths symbol ∣ total depth lengths symbols := by
  induction symbols with
  | nil => exact Nat.dvd_zero _
  | cons other rest ih =>
    rw [forall_mem_cons] at notLonger
    rw [total_cons]
    exact Nat.dvd_add (span_dvd notLonger.1) (ih notLonger.2)

/-- Each pattern that is begun is in one symbol's interval. -/
theorem exists_interval {symbols : List σ} {pattern : Nat}
    (isBegun : pattern < total depth lengths symbols) :
    ∃ before symbol after,
      symbols = before ++ symbol :: after ∧
        total depth lengths before ≤ pattern ∧
        pattern < total depth lengths before + span depth lengths symbol := by
  induction symbols using List.reverseRecOn with
  | nil => exact absurd isBegun (Nat.not_lt_zero _)
  | append_singleton rest last ih =>
    by_cases inRest : pattern < total depth lengths rest
    · obtain ⟨before, symbol, after, isRest, bounds⟩ := ih inRest
      exact ⟨before, symbol, after ++ [last], by simp [isRest], bounds⟩
    · refine ⟨rest, last, [], rfl, by omega, ?_⟩
      simpa using isBegun

end Intervals

section Codes

variable
    (depth : Nat)
    (lengths : Nat → Nat)
    (count : Nat)

/-- The order in which codes are handed out. -/
def Before (symbol other : Nat) : Prop :=
  lengths symbol < lengths other ∨ lengths symbol = lengths other ∧ symbol < other

instance (symbol other : Nat) : Decidable (Before lengths symbol other) :=
  inferInstanceAs (Decidable (_ ∨ _))

/-- The symbols that have a code. -/
def coded : List Nat := (List.range count).filter fun symbol => lengths symbol ≠ 0

/-- Kraft's equality, of every symbol that has a code. -/
def Complete : Prop := total depth lengths (coded lengths count) = 2 ^ depth

/-- The first pattern that a symbol's code begins. -/
def start (symbol : Nat) : Nat :=
  total depth lengths ((coded lengths count).filter fun other => Before lengths other symbol)

/-- A symbol's canonical code, of its own length. -/
def code (symbol : Nat) : Nat := start depth lengths count symbol / span depth lengths symbol

/-- Whether a symbol's code begins a pattern. -/
def Begins (symbol pattern : Nat) : Prop :=
  pattern / span depth lengths symbol = code depth lengths count symbol

variable
    {depth lengths count}

theorem mem_coded {symbol : Nat} :
    symbol ∈ coded lengths count ↔ symbol < count ∧ lengths symbol ≠ 0 := by
  simp [coded]

theorem total_perm {first second : List Nat} (same : first.Perm second) :
    total depth lengths first = total depth lengths second :=
  (same.map _).sum_nat

variable (lengths count) in
/-- A sorted list of the coded symbols. -/
structure Sorted (symbols : List Nat) : Prop where
  ascend : symbols.Pairwise (Before lengths)
  isCoded : symbols.Perm (coded lengths count)

theorem Before.irrefl (symbol : Nat) : ¬Before lengths symbol symbol := by
  unfold Before
  omega

theorem Before.asymm {symbol other : Nat} (isBefore : Before lengths symbol other) :
    ¬Before lengths other symbol := by
  unfold Before at *
  omega

section Order

variable
    {symbols before after : List Nat}
    {symbol : Nat}

/-- A symbol's first pattern comes after those of the symbols before it. -/
theorem Sorted.start_eq (sorted : Sorted lengths count symbols)
    (isSplit : symbols = before ++ symbol :: after) :
    start depth lengths count symbol = total depth lengths before := by
  have ascend := sorted.ascend
  rw [isSplit, pairwise_append, pairwise_cons] at ascend
  obtain ⟨_, ⟨fromSymbol, _⟩, toSymbol⟩ := ascend
  have inFront : (symbols.filter fun other => Before lengths other symbol) = before := by
    rw [isSplit, filter_append, filter_eq_self.mpr,
      filter_eq_nil_iff.mpr, append_nil]
    · intro other isOther
      rcases mem_cons.mp isOther with rfl | isAfter
      · simpa using Before.irrefl other
      · simpa using (fromSymbol other isAfter).asymm
    · intro other isBefore
      simpa using toSymbol other isBefore symbol mem_cons_self
  rw [start, ← inFront]
  exact (total_perm (sorted.isCoded.filter _)).symm

/-- A symbol's code begins the patterns of its interval. -/
theorem Sorted.begins_iff (sorted : Sorted lengths count symbols)
    (isSplit : symbols = before ++ symbol :: after) (pattern : Nat) :
    Begins depth lengths count symbol pattern ↔
      total depth lengths before ≤ pattern ∧
        pattern < total depth lengths before + span depth lengths symbol := by
  have isPositive := span_pos depth lengths symbol
  have ascend := sorted.ascend
  rw [isSplit, pairwise_append] at ascend
  have notLonger : ∀ other ∈ before, lengths other ≤ lengths symbol := by
    intro other isOther
    have isBefore := ascend.2.2 other isOther symbol mem_cons_self
    unfold Before at isBefore
    omega
  obtain ⟨codeAt, isCode⟩ := span_dvd_total depth notLonger
  rw [Begins, code, sorted.start_eq isSplit, isCode, Nat.mul_div_cancel_left _ isPositive,
    Nat.div_eq_iff isPositive, Nat.mul_comm codeAt]
  omega

/-- With complete lengths each pattern is begun by one symbol's code. -/
theorem Sorted.exists_begins (sorted : Sorted lengths count symbols) {pattern : Nat}
    (isBegun : pattern < total depth lengths symbols) :
    ∃ symbol,
      symbol ∈ symbols ∧ Begins depth lengths count symbol pattern ∧
        ∀ other, other ∈ symbols → Begins depth lengths count other pattern → other = symbol := by
  obtain ⟨before, symbol, after, isSplit, bounds⟩ := exists_interval isBegun
  refine ⟨symbol, by simp [isSplit], (sorted.begins_iff isSplit pattern).mpr bounds, ?_⟩
  intro other isOther begins
  rw [isSplit, mem_append, mem_cons] at isOther
  rcases isOther with inFront | isSymbol | isBehind
  · obtain ⟨front, middle, isFront⟩ := append_of_mem inFront
    have otherSplit : symbols = front ++ other :: (middle ++ symbol :: after) := by
      simp [isSplit, isFront]
    have otherBounds := (sorted.begins_iff otherSplit pattern).mp begins
    rw [isFront, total_append, total_cons] at bounds
    omega
  · exact isSymbol
  · obtain ⟨middle, behind, isBehind⟩ := append_of_mem isBehind
    have otherSplit : symbols = (before ++ symbol :: middle) ++ other :: behind := by
      simp [isSplit, isBehind]
    have otherBounds := (sorted.begins_iff otherSplit pattern).mp begins
    rw [total_append, total_cons] at otherBounds
    omega

end Order

end Codes

end IyaSts.CanonicalCode
