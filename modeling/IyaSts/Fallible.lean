import Mathlib.Data.List.Basic
import Mathlib.Data.List.Forall2

namespace IyaSts.Fallible

/-!
# Programs that succeed

What a success of a fallible program says of its parts.
-/

open List

variable {α β γ ε : Type}

variable (value : α) (first : Except ε α) (read : α → Except ε β)

/-- A program that has succeeded passes its value on. -/
theorem ok_bind (next : α → Except ε β) :
    ((.ok value : Except ε α) >>= next) = next value :=
  rfl

/-- A program of a bind that succeeds is two that do. -/
theorem bind_eq_ok_iff (next : α → Except ε β) (result : β) :
    (first >>= next) = .ok result ↔ ∃ value, first = .ok value ∧ next value = .ok result := by
  cases first <;> simp [bind, Except.bind]

/-- A program of a bind that fails is one of two that does. -/
theorem bind_eq_error_iff (next : α → Except ε β) (failure : ε) :
    (first >>= next) = .error failure ↔
      first = .error failure ∨ ∃ value, first = .ok value ∧ next value = .error failure := by
  cases first <;> simp [bind, Except.bind]

theorem pure_ne_error (failure : ε) : (pure value : Except ε α) ≠ .error failure := by
  simp [pure, Except.pure]

theorem pure_eq_ok_iff (value result : α) :
    (pure value : Except ε α) = .ok result ↔ value = result := by
  simp [pure, Except.pure]

theorem throw_ne_ok (failure : ε) (result : α) : (throw failure : Except ε α) ≠ .ok result := by
  intro succeeds
  cases succeeds

/-- A check succeeds where its condition holds. -/
theorem ite_eq_ok_iff {condition : Prop} [Decidable condition] {value result : α} {failure : ε} :
    (if condition then (.ok value : Except ε α) else .error failure) = .ok result ↔
      condition ∧ result = value := by
  split
  · rename_i holds
    rw [Except.ok.injEq, and_iff_right holds]
    exact eq_comm
  · rename_i fails
    refine iff_of_false (by rintro ⟨⟩) ?_
    rintro ⟨holds, _⟩
    exact fails holds

/-- A check of every element succeeds where that of each does. -/
theorem forM_eq_ok_iff {check : α → Except ε Unit} {list : List α} :
    list.forM check = .ok () ↔ ∀ one ∈ list, check one = .ok () := by
  induction list with
  | nil => refine iff_of_true rfl (forall_mem_nil _)
  | cons one rest ih =>
    have isLoop : (one :: rest).forM check = check one >>= fun _ => rest.forM check := rfl
    rw [isLoop, bind_eq_ok_iff, forall_mem_cons, ← ih]
    constructor
    · rintro ⟨⟨⟩, first, others⟩
      exact ⟨first, others⟩
    · rintro ⟨first, others⟩
      exact ⟨(), first, others⟩

/-- What every round of a loop keeps, the loop keeps. -/
theorem foldlM_keeps {Kept : β → Prop} {step : β → α → Except ε β} {rounds : List α}
    (each :
      ∀ {held held' : β} {one : α},
        one ∈ rounds →
        step held one = .ok held' →
        Kept held →
        Kept held')
    {held final : β}
    (folds : rounds.foldlM step held = .ok final)
    (kept : Kept held) :
    Kept final := by
  induction rounds generalizing held with
  | nil =>
    cases folds
    exact kept
  | cons one rest ih =>
    rw [foldlM_cons, bind_eq_ok_iff] at folds
    obtain ⟨next, stepped, folds⟩ := folds
    exact ih
      (fun isLater => each (mem_cons_of_mem _ isLater)) folds
      (each mem_cons_self stepped kept)

/-! ## Failures that do not happen -/

variable {failure : ε}

/-- A program that does not fail one way, if neither of its parts does. -/
theorem bind_ne_error {first : Except ε α} {next : α → Except ε β}
    (firstNever : first ≠ .error failure)
    (nextNever : ∀ {value : α}, first = .ok value → next value ≠ .error failure) :
    (first >>= next) ≠ .error failure := by
  cases first with
  | ok value => exact nextNever rfl
  | error other =>
    intro fails
    cases fails
    exact firstNever rfl

/-- A loop does not fail the way none of its rounds does. -/
theorem foldlM_ne_error {step : β → α → Except ε β} {rounds : List α}
    (each : ∀ held, ∀ one ∈ rounds, step held one ≠ .error failure) (held : β) :
    rounds.foldlM step held ≠ .error failure := by
  induction rounds generalizing held with
  | nil =>
    intro fails
    cases fails
  | cons one rest ih =>
    rw [foldlM_cons]
    exact bind_ne_error (each held one mem_cons_self)
      fun _ =>
        ih
          (fun held one isLater => each held one (mem_cons_of_mem _ isLater)) _

/-- A list is read when each of its members is. -/
theorem mapM_eq_ok_iff (members : List α) (results : List β) :
    members.mapM read = .ok results ↔
      List.Forall₂ (fun one result => read one = .ok result) members results := by
  induction members generalizing results with
  | nil =>
    rw [mapM_nil, pure_eq_ok_iff, forall₂_nil_left_iff]
    exact eq_comm
  | cons one rest ih =>
    rw [mapM_cons, bind_eq_ok_iff, forall₂_cons_left_iff]
    constructor
    · rintro ⟨result, isRead, restRead⟩
      rw [bind_eq_ok_iff] at restRead
      obtain ⟨others, othersRead, together⟩ := restRead
      rw [pure_eq_ok_iff] at together
      exact ⟨result, others, isRead, (ih others).mp othersRead, together.symm⟩
    · rintro ⟨result, others, isRead, othersRead, together⟩
      refine ⟨result, isRead, ?_⟩
      rw [(ih others).mpr othersRead, together]
      rfl

/-- Reading depends on what the members are read as. -/
theorem mapM_congr_of_mem {read other : α → Except ε β} {members : List α}
    (alike : ∀ one ∈ members, read one = other one) :
    members.mapM read = members.mapM other := by
  induction members with
  | nil => rfl
  | cons one rest ih =>
    rw [forall_mem_cons] at alike
    rw [mapM_cons, mapM_cons, alike.1, ih alike.2]

/-- What is made of each result may be made of them together. -/
theorem mapM_map_result (after : β → γ) (members : List α) :
    (members.mapM fun one => (read one).map after) = (members.mapM read).map (List.map after) := by
  induction members with
  | nil => rfl
  | cons one rest ih =>
    rw [mapM_cons, mapM_cons, ih]
    cases read one with
    | error failure => rfl
    | ok result => cases rest.mapM read <;> rfl

end IyaSts.Fallible
