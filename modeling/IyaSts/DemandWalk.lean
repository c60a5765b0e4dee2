import Mathlib.Data.List.Forall2

namespace IyaSts.DemandWalk

/-!
# Early-exit walks over children evaluated on demand

A walk asks its children one at a time, folds what they answer into flags and
stops at the first answer that settles the matter.  The children are programs
of an arbitrary monad, so a child after the stopping one is never run.

`settleAll` is the same walk over answers that are already known.  A completed
run is determined by the answers it really asked for, which is what lets every
fact about verdicts be proved on plain lists.
-/

open List

/-- A walk: the flags it keeps, the answers that stop it, and the final cascade. -/
structure Walk (Verdict : Type) where
  Flags : Type
  start : Flags
  stop : Verdict → Option Verdict
  note : Flags → Verdict → Flags
  settle : Flags → Verdict

/-- What a walk produces: its verdict and the results it really evaluated. -/
structure Outcome (Verdict Result : Type) where
  verdict : Verdict
  results : List Result
  deriving DecidableEq

/-- An outcome whose results are read in another way. -/
def Outcome.map {Verdict Answer Result : Type} (read : Answer → Result)
    (outcome : Outcome Verdict Answer) :
    Outcome Verdict Result where
  verdict := outcome.verdict
  results := outcome.results.map read

namespace Walk

variable {Verdict Result : Type}

/-- Evaluate the children in order until one of them stops the walk. -/
def run {m : Type → Type} [Monad m] (walk : Walk Verdict) (verdictOf : Result → Verdict) :
    walk.Flags → List Result → List (m Result) → m (Outcome Verdict Result)
  | flags, results, [] => pure ⟨walk.settle flags, results⟩
  | flags, results, child :: rest => do
    let result ← child
    match walk.stop (verdictOf result) with
    | some verdict => pure ⟨verdict, results ++ [result]⟩
    | none => run walk verdictOf (walk.note flags (verdictOf result)) (results ++ [result]) rest

/-- The walk over answers that are already known. -/
def settleAll (walk : Walk Verdict) :
    walk.Flags → List Verdict → Outcome Verdict Verdict
  | flags, [] => ⟨walk.settle flags, []⟩
  | flags, answer :: rest =>
    match walk.stop answer with
    | some verdict => ⟨verdict, [answer]⟩
    | none =>
      let settled := settleAll walk (walk.note flags answer) rest
      ⟨settled.verdict, answer :: settled.results⟩

variable {ε σ : Type} {earlier : List Result} {children : List (EStateM ε σ Result)}
    {state finalState : σ} {outcome : Outcome Verdict Result} {target : Verdict}
    (walk : Walk Verdict) (verdictOf : Result → Verdict) (wins : Verdict) {flags : walk.Flags}

/-- Running a walk over pure children is walking over their answers. -/
theorem run_pure (flags : walk.Flags) (earlier answers : List Verdict) :
    walk.run (m := Id) id flags earlier (answers.map pure) =
      ⟨(walk.settleAll flags answers).verdict,
        earlier ++ (walk.settleAll flags answers).results⟩ := by
  induction answers generalizing flags earlier with
  | nil =>
    simp only [map_nil, run, settleAll, append_nil]
    rfl
  | cons answer rest ih =>
    simp only [map_cons, run, settleAll, id_eq, bind, pure]
    cases stopped : walk.stop answer with
    | some verdict => simp
    | none => simpa [pure] using ih (walk.note flags answer) (earlier ++ [answer])

/-- Reading each child's answer is reading the answers of the whole run. -/
theorem run_map {Answer : Type} {m : Type → Type} [Monad m] [LawfulMonad m]
    {verdictOf : Result → Verdict} {verdictOfAnswer : Answer → Verdict} {read : Answer → Result}
    (same : ∀ answer, verdictOf (read answer) = verdictOfAnswer answer)
    (flags : walk.Flags) (earlier : List Answer) (children : List (m Answer)) :
    walk.run verdictOf flags (earlier.map read)
        (children.map fun child => read <$> child) =
      Outcome.map read <$> walk.run verdictOfAnswer flags earlier children := by
  induction children generalizing flags earlier with
  | nil =>
    simp only [map_nil, run, map_pure]
    rfl
  | cons child rest ih =>
    simp only [map_cons, run, bind_map_left, map_bind, same]
    congr 1
    funext answer
    cases walk.stop (verdictOfAnswer answer) with
    | some verdict => simp [Outcome.map]
    | none =>
      simpa using
        ih (walk.note flags (verdictOfAnswer answer)) (earlier ++ [answer])

/--
A completed run is determined by the results it evaluated: walking over their
verdicts gives the same verdict and stops at the same place.
-/
theorem run_ok
    (completed : walk.run verdictOf flags earlier children state = .ok outcome finalState) :
    ∃ evaluated,
      outcome.results = earlier ++ evaluated ∧
        walk.settleAll flags (evaluated.map verdictOf) =
          ⟨outcome.verdict, evaluated.map verdictOf⟩ := by
  induction children generalizing flags earlier state with
  | nil =>
    simp only [run, pure, EStateM.pure, EStateM.Result.ok.injEq]
      at completed
    obtain ⟨rfl, rfl⟩ := completed
    exact ⟨[], by simp, by simp [settleAll]⟩
  | cons child rest ih =>
    simp only [run, bind, EStateM.bind] at completed
    cases answered : child state with
    | error failure failedState => simp [answered] at completed
    | ok result nextState =>
      simp only [answered] at completed
      cases stopped : walk.stop (verdictOf result) with
      | some verdict =>
        simp only [stopped, pure, EStateM.pure, EStateM.Result.ok.injEq] at completed
        obtain ⟨rfl, rfl⟩ := completed
        exact ⟨[result], rfl, by simp [settleAll, stopped]⟩
      | none =>
        simp only [stopped] at completed
        obtain ⟨evaluated, resultsShape, settled⟩ := ih completed
        refine ⟨result :: evaluated, ?_, ?_⟩
        · simp [resultsShape]
        · simp [settleAll, stopped, settled]

/-- Every result of a completed run was answered by one of the children. -/
theorem run_answered
    (completed : walk.run verdictOf flags earlier children state = .ok outcome finalState) :
    ∀ result ∈ outcome.results,
      result ∈ earlier ∨ ∃ child ∈ children, ∃ before after, child before = .ok result after := by
  induction children generalizing flags earlier state with
  | nil =>
    simp only [run, pure, EStateM.pure, EStateM.Result.ok.injEq]
      at completed
    obtain ⟨rfl, rfl⟩ := completed
    exact fun result isEarlier => .inl isEarlier
  | cons child rest ih =>
    simp only [run, bind, EStateM.bind] at completed
    cases answered : child state with
    | error failure failedState => simp [answered] at completed
    | ok answer nextState =>
      have isAnswered :
          ∀ result ∈ earlier ++ [answer],
            result ∈ earlier ∨
              ∃ one ∈ child :: rest, ∃ before after, one before = .ok result after := by
        intro result isResult
        rcases mem_append.mp isResult with isEarlier | isAnswer
        · exact .inl isEarlier
        · obtain rfl := mem_singleton.mp isAnswer
          exact .inr ⟨child, mem_cons_self, state, nextState, answered⟩
      simp only [answered] at completed
      cases stopped : walk.stop (verdictOf answer) with
      | some verdict =>
        simp only [stopped, pure, EStateM.pure, EStateM.Result.ok.injEq] at completed
        obtain ⟨rfl, rfl⟩ := completed
        exact isAnswered
      | none =>
        simp only [stopped] at completed
        intro result isResult
        rcases ih completed result isResult with
          isEarlier | ⟨one, isOne, before, after, isRun⟩
        · exact isAnswered result isEarlier
        · exact .inr ⟨one, mem_cons_of_mem _ isOne, before, after, isRun⟩

/-- A child is asked in a state, after those before it answered and none of them
stopped the walk. -/
inductive Asks {ε σ Item : Type} (walk : Walk Verdict) (verdictOf : Result → Verdict)
    (evaluate : Item → EStateM ε σ Result) :
    walk.Flags → List Item → σ → Item → σ → Prop where
  | here
      {flags : walk.Flags}
      {item : Item}
      {rest : List Item}
      {state : σ} :
      Asks walk verdictOf evaluate flags (item :: rest) state item state
  | later
      {flags : walk.Flags}
      {first item : Item}
      {rest : List Item}
      {state next before : σ}
      {result : Result}
      (answered : evaluate first state = .ok result next)
      (goesOn : walk.stop (verdictOf result) = none)
      (asks :
        Asks walk verdictOf evaluate (walk.note flags (verdictOf result)) rest next item before) :
      Asks walk verdictOf evaluate flags (first :: rest) state item before

/-- A run throws exactly what a child that is asked throws. -/
theorem run_error_iff {ε σ Item : Type} (evaluate : Item → EStateM ε σ Result) {items : List Item}
    {state finalState : σ} {failure : ε} :
    walk.run verdictOf flags earlier (items.map evaluate) state =
        .error failure finalState ↔
      ∃ item before,
        Asks walk verdictOf evaluate flags items state item before ∧
          evaluate item before = .error failure finalState := by
  induction items generalizing flags earlier state with
  | nil =>
    constructor
    · intro failed
      cases failed
    · rintro ⟨item, before, asks, _⟩
      cases asks
  | cons first rest ih =>
    simp only [map_cons, run, bind, EStateM.bind]
    cases answered : evaluate first state with
    | error thrown thrownState =>
      constructor
      · intro failed
        cases failed
        exact ⟨first, state, .here, answered⟩
      · rintro ⟨item, before, asks, failed⟩
        cases asks with
        | here =>
          rw [answered] at failed
          cases failed
          rfl
        | later isAnswered goesOn asks =>
          rw [answered] at isAnswered
          cases isAnswered
    | ok result next =>
      dsimp only
      cases stopped : walk.stop (verdictOf result) with
      | some verdict =>
        constructor
        · intro failed
          cases failed
        · rintro ⟨item, before, asks, failed⟩
          cases asks with
          | here =>
            rw [answered] at failed
            cases failed
          | later isAnswered goesOn asks =>
            rw [answered] at isAnswered
            cases isAnswered
            rw [stopped] at goesOn
            cases goesOn
      | none =>
        refine ih.trans ?_
        constructor
        · rintro ⟨item, before, asks, failed⟩
          exact ⟨item, before, .later answered stopped asks, failed⟩
        · rintro ⟨item, before, asks, failed⟩
          cases asks with
          | here =>
            rw [answered] at failed
            cases failed
          | later isAnswered goesOn asks =>
            rw [answered] at isAnswered
            cases isAnswered
            exact ⟨item, before, asks, failed⟩

/-- The answers a walk asked for are among the answers there are. -/
theorem settleAll_results_subset (flags : walk.Flags) (answers : List Verdict) :
    ∀ answer ∈ (walk.settleAll flags answers).results, answer ∈ answers := by
  induction answers generalizing flags with
  | nil => simp [settleAll]
  | cons first rest ih =>
    intro answer asked
    simp only [settleAll] at asked
    cases stopped : walk.stop first with
    | some verdict =>
      simp only [stopped, mem_singleton] at asked
      simp [asked]
    | none =>
      simp only [stopped, mem_cons] at asked
      rcases asked with isFirst | inRest
      · simp [isFirst]
      · exact mem_cons_of_mem _ (ih _ answer inRest)

/--
A walk that stops at one answer gives it when some child answers it, and
otherwise settles what every child noted.
-/
theorem settleAll_verdict_of_stops_at [DecidableEq Verdict]
    (stops : ∀ answer, walk.stop answer = if answer = wins then some wins else none)
    (flags : walk.Flags) (answers : List Verdict) :
    (walk.settleAll flags answers).verdict =
      if wins ∈ answers then
        wins
      else
        walk.settle (answers.foldl walk.note flags) := by
  induction answers generalizing flags with
  | nil => simp [settleAll]
  | cons answer rest ih =>
    simp only [settleAll, stops answer]
    by_cases isWins : answer = wins
    · simp [isWins]
    · have notAnswer : ¬ wins = answer := Ne.symm isWins
      simp [isWins, notAnswer, ih]

/-- A walk that stops at one answer asks for it whenever a child answers it. -/
theorem mem_results_of_stops_at [DecidableEq Verdict]
    (stops : ∀ answer, walk.stop answer = if answer = wins then some wins else none)
    (flags : walk.Flags) {answers : List Verdict} (answered : wins ∈ answers) :
    wins ∈ (walk.settleAll flags answers).results := by
  induction answers generalizing flags with
  | nil => simp at answered
  | cons answer rest ih =>
    simp only [settleAll, stops answer]
    by_cases isWins : answer = wins
    · simp [isWins]
    · have inRest : wins ∈ rest := (mem_cons.mp answered).resolve_left (Ne.symm isWins)
      simpa [isWins] using Or.inr (ih _ inRest)

/-!
## Where a verdict comes from

`Traces target` says that the flags remember whether the answer `target` was
seen, and that the verdict `target` is never reached without it.
-/

/-- The verdict `target` is only reached after the answer `target` was seen. -/
structure Traces (walk : Walk Verdict) (target : Verdict) where
  Saw : walk.Flags → Prop
  unseen : ¬ Saw walk.start
  noted : ∀ flags answer, Saw (walk.note flags answer) → Saw flags ∨ answer = target
  stopped : ∀ answer, walk.stop answer = some target → answer = target
  settled : ∀ flags, walk.settle flags = target → Saw flags

/-- One walk's verdict `target` traces back to an earlier sight or an answer. -/
theorem Traces.verdict_seen {walk : Walk Verdict}
    (traces : walk.Traces target) (flags : walk.Flags) (answers : List Verdict)
    (reached : (walk.settleAll flags answers).verdict = target) :
    traces.Saw flags ∨ target ∈ (walk.settleAll flags answers).results := by
  induction answers generalizing flags with
  | nil => exact .inl (traces.settled flags reached)
  | cons answer rest ih =>
    simp only [settleAll] at reached ⊢
    cases stopped : walk.stop answer with
    | some verdict =>
      simp only [stopped] at reached
      subst reached
      simp [traces.stopped answer stopped]
    | none =>
      simp only [stopped] at reached
      rcases ih _ reached with saw | later
      · rcases traces.noted flags answer saw with earlier | isTarget
        · exact .inl earlier
        · simp [isTarget]
      · exact .inr (mem_cons_of_mem _ later)

/-- From its start, a tracing walk reaches `target` only if a child answered it. -/
theorem Traces.answered {walk : Walk Verdict} (traces : walk.Traces target) (answers : List Verdict)
    (reached :
    (walk.settleAll walk.start answers).verdict = target) :
    target ∈ (walk.settleAll walk.start answers).results :=
  (traces.verdict_seen walk.start answers reached).resolve_left traces.unseen

/-!
## Walks that decide alike

Two walks with different flags decide alike when their flags are related by
something every answer keeps.
-/

/-- Two walks whose related flags give the same verdicts. -/
structure Matches (first second : Walk Verdict) where
  Related : first.Flags → second.Flags → Prop
  start : Related first.start second.start
  stop : ∀ answer, first.stop answer = second.stop answer
  note :
    ∀ flags flags' answer,
      Related flags flags' →
      Related (first.note flags answer) (second.note flags' answer)
  settle : ∀ flags flags', Related flags flags' → first.settle flags = second.settle flags'

/-- Matching walks settle every list of answers alike. -/
theorem Matches.settleAll_eq {first second : Walk Verdict}
    (matching : Matches first second) {flags : first.Flags} {flags' : second.Flags}
    (related : matching.Related flags flags') (answers : List Verdict) :
    first.settleAll flags answers = second.settleAll flags' answers := by
  induction answers generalizing flags flags' with
  | nil => simp [settleAll, matching.settle _ _ related]
  | cons answer rest ih =>
    simp only [settleAll, matching.stop answer]
    cases second.stop answer with
    | some verdict => rfl
    | none => simp only [ih (matching.note _ _ answer related)]

end Walk

end IyaSts.DemandWalk
