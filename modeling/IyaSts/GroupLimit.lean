import Mathlib.Data.List.Sort

namespace IyaSts.GroupLimit

/-!
# The first items of every group

Of a list whose items fall into groups, each group keeps its first items up to a
limit.  The rest is surplus, and leaving out surplus changes nothing of what is
kept.
-/

open List

variable {α γ : Type} [DecidableEq γ] (group : α → γ) (limit : Nat)

/-- The items within the limit of their groups; `seen` are the groups before. -/
def leading (seen : List γ) : List α → List α
  | [] => []
  | one :: rest =>
    if limit ≤ seen.count (group one) then
      leading (group one :: seen) rest
    else
      one :: leading (group one :: seen) rest

/-- The items past the limit of their groups. -/
def surplus (seen : List γ) : List α → List α
  | [] => []
  | one :: rest =>
    if limit ≤ seen.count (group one) then
      one :: surplus (group one :: seen) rest
    else
      surplus (group one :: seen) rest

/-! ## Every item is one or the other -/

theorem mem_leading_or_surplus (seen : List γ) (items : List α) (one : α) :
    one ∈ leading group limit seen items ∨ one ∈ surplus group limit seen items ↔ one ∈ items := by
  induction items generalizing seen with
  | nil => simp [leading, surplus]
  | cons first rest ih =>
    have others := ih (group first :: seen)
    unfold leading surplus
    split
    · rw [mem_cons, mem_cons, ← others]
      exact or_left_comm
    · rw [mem_cons, mem_cons, ← others]
      exact or_assoc

theorem leading_sublist (seen : List γ) (items : List α) :
    (leading group limit seen items).Sublist items := by
  induction items generalizing seen with
  | nil => exact .slnil
  | cons first rest ih =>
    unfold leading
    split
    · exact (ih _).cons _
    · exact (ih _).cons_cons _

theorem surplus_sublist (seen : List γ) (items : List α) :
    (surplus group limit seen items).Sublist items := by
  induction items generalizing seen with
  | nil => exact .slnil
  | cons first rest ih =>
    unfold surplus
    split
    · exact (ih _).cons_cons _
    · exact (ih _).cons _

variable {seen : List γ} {items : List α} {one : α}

/-- No item is both, where none is there twice. -/
theorem not_leading_of_surplus (distinct : items.Nodup)
    (isSurplus : one ∈ surplus group limit seen items) :
    one ∉ leading group limit seen items := by
  induction items generalizing seen with
  | nil => cases isSurplus
  | cons first rest ih =>
    obtain ⟨isNew, distinct⟩ := nodup_cons.mp distinct
    unfold surplus at isSurplus
    unfold leading
    split at isSurplus
    · rename_i isFull
      rw [if_pos isFull]
      rcases mem_cons.mp isSurplus with rfl | isLater
      · intro isLeading
        exact isNew ((leading_sublist group limit _ rest).subset isLeading)
      · exact ih distinct isLater
    · rename_i notFull
      rw [if_neg notFull, mem_cons, not_or]
      refine ⟨?_, ih distinct isSurplus⟩
      rintro rfl
      exact isNew ((surplus_sublist group limit _ rest).subset isSurplus)

/-! ## What stands before surplus -/

/-- The groups of the leading items reach the limit where the items do. -/
theorem count_leading (seen : List γ) (items : List α) (key : γ) :
    min limit (seen.count key + (items.map group).count key) =
      min limit (seen.count key) + ((leading group limit seen items).map group).count key := by
  induction items generalizing seen with
  | nil => simp [leading]
  | cons first rest ih =>
    have others := ih (group first :: seen)
    rw [map_cons, count_cons]
    rw [count_cons] at others
    unfold leading
    by_cases isKey : group first = key
    · simp only [isKey, beq_self_eq_true, if_true] at others ⊢
      split
      · omega
      · rw [map_cons, count_cons, isKey, beq_self_eq_true, if_pos rfl]
        omega
    · have notKey : (group first == key) = false := beq_eq_false_iff_ne.mpr isKey
      simp only [notKey, Bool.false_eq_true, if_false, Nat.add_zero] at others ⊢
      split
      · exact others
      · rw [map_cons, count_cons, notKey]
        simpa using others

/-- A surplus item has a full group in front of it. -/
theorem front_of_surplus (isSurplus : one ∈ surplus group limit seen items) :
    ∃ front back,
      items = front ++ one :: back ∧
        limit ≤ seen.count (group one) + (front.map group).count (group one) := by
  induction items generalizing seen with
  | nil => cases isSurplus
  | cons first rest ih =>
    have later
        (isLater : one ∈ surplus group limit (group first :: seen) rest) :
        ∃ front back,
          first :: rest = front ++ one :: back ∧
            limit ≤ seen.count (group one) + (front.map group).count (group one) := by
      obtain ⟨front, back, rfl, isFull⟩ := ih isLater
      refine ⟨first :: front, back, rfl, ?_⟩
      rw [count_cons] at isFull
      rw [map_cons, count_cons]
      omega
    unfold surplus at isSurplus
    split at isSurplus
    · rename_i isFull
      rcases mem_cons.mp isSurplus with rfl | isLater
      · exact ⟨[], rest, rfl, isFull⟩
      · exact later isLater
    · exact later isSurplus

/-- What is leading in the front of a list is leading in the list. -/
theorem leading_append (seen : List γ) (front back : List α) :
    leading group limit seen (front ++ back) =
      leading group limit seen front ++
        leading group limit ((front.map group).reverse ++ seen) back := by
  induction front generalizing seen with
  | nil => rfl
  | cons first rest ih =>
    have others := ih (group first :: seen)
    rw [map_cons, reverse_cons, append_assoc, singleton_append]
    rw [cons_append, leading, leading]
    split
    · exact others
    · rw [others, cons_append]

/-- A surplus item has as many leading ones of its group in front of it. -/
theorem leading_before_surplus (isSurplus : one ∈ surplus group limit [] items) :
    ∃ front back,
      items = front ++ one :: back ∧
        (leading group limit [] front).Sublist (leading group limit [] items) ∧
          ((leading group limit [] front).map group).count (group one) = limit := by
  obtain ⟨front, back, rfl, isFull⟩ := front_of_surplus group limit isSurplus
  have counted := count_leading group limit [] front (group one)
  rw [count_nil] at isFull counted
  refine ⟨front, back, rfl, ?_, by omega⟩
  rw [leading_append]
  exact sublist_append_left _ _

/-- The groups alone tell which items are leading. -/
theorem leading_map {β : Type} (name : β → α) (seen : List γ) (items : List β) :
    leading group limit seen (items.map name) =
      (leading (fun one => group (name one)) limit seen items).map name := by
  induction items generalizing seen with
  | nil => rfl
  | cons first rest ih =>
    rw [map_cons, leading, leading, ih]
    split <;> rfl

/-! ## Leaving out surplus -/

/-- Of what is left without some surplus, the same items are leading. -/
theorem leading_filter {seen seen' : List γ} {keep : α → Bool}
    (sameCounts : ∀ key, min limit (seen'.count key) = min limit (seen.count key))
    (keeps : ∀ one ∈ leading group limit seen items, keep one = true) :
    leading group limit seen' (items.filter keep) = leading group limit seen items := by
  induction items generalizing seen seen' with
  | nil => rfl
  | cons first rest ih =>
    have sameFirst := sameCounts (group first)
    have counted (key : γ) :
        min limit ((group first :: seen').count key) =
          min limit ((group first :: seen).count key) := by
      have same := sameCounts key
      rw [count_cons, count_cons]
      omega
    rw [leading] at keeps ⊢
    split at keeps
    · rename_i isFull
      rw [if_pos isFull]
      by_cases isKept : keep first = true
      · rw [filter_cons_of_pos isKept, leading, if_pos (by omega)]
        exact ih counted keeps
      · rw [filter_cons_of_neg isKept]
        refine ih (fun key => ?_) keeps
        rw [sameCounts key, count_cons]
        by_cases isKey : group first = key
        · rw [isKey] at isFull
          omega
        · rw [beq_eq_false_iff_ne.mpr isKey]
          rfl
    · rename_i notFull
      rw [if_neg notFull]
      rw [filter_cons_of_pos (keeps first mem_cons_self), leading, if_neg (by omega),
        ih counted fun one isOne => keeps one (mem_cons_of_mem _ isOne)]

/-! ## The first items in an order -/

section

variable
  {le : α → α → Bool}
  (trans : ∀ first second third, le first second → le second third → le first third)
  (total : ∀ first second, le first second || le second first)

include trans total

/-- An item is sorted in after the smaller ones and before all others. -/
theorem mergeSort_cons_split (first : α) (rest : List α) :
    (first :: rest).mergeSort le =
        (rest.mergeSort le).filter (fun one => !le first one) ++
          first :: (rest.mergeSort le).filter (le first) ∧
      (rest.mergeSort le).filter (fun one => !le first one) ++
          (rest.mergeSort le).filter (le first) =
        rest.mergeSort le := by
  obtain ⟨front, back, sorted, others, before⟩ := mergeSort_cons trans total first rest
  have ordered := pairwise_mergeSort trans total (first :: rest)
  rw [sorted] at ordered
  have after : ∀ one ∈ back, le first one = true :=
    (pairwise_cons.mp (pairwise_append.mp ordered).2.1).1
  have before : ∀ one ∈ front, le first one = false := by simpa using before
  have frontIs : (rest.mergeSort le).filter (fun one => !le first one) = front := by
    rw [others, filter_append, filter_eq_self.mpr, filter_eq_nil_iff.mpr,
      append_nil]
    · simpa using after
    · simpa using before
  have backIs : (rest.mergeSort le).filter (le first) = back := by
    rw [others, filter_append, filter_eq_nil_iff.mpr, filter_eq_self.mpr,
      nil_append]
    · exact after
    · simpa using before
  rw [sorted, frontIs, backIs, others]
  exact ⟨rfl, rfl⟩

/-- Sorting, being stable, commutes with leaving items out. -/
theorem filter_mergeSort (keep : α → Bool) (items : List α) :
    (items.mergeSort le).filter keep = (items.filter keep).mergeSort le := by
  induction items with
  | nil => simp
  | cons first rest ih =>
    have both (holds : α → Bool) :
        ((rest.mergeSort le).filter holds).filter keep =
          ((rest.filter keep).mergeSort le).filter holds := by
      rw [filter_comm, ih]
    rw [(mergeSort_cons_split trans total first rest).1, filter_append, both]
    by_cases isKept : keep first = true
    · rw [filter_cons_of_pos isKept, filter_cons_of_pos isKept, both,
        (mergeSort_cons_split trans total first (rest.filter keep)).1]
    · rw [filter_cons_of_neg isKept, filter_cons_of_neg isKept, both]
      exact (mergeSort_cons_split trans total first (rest.filter keep)).2

variable {items : List α}

/-- Leaving out surplus keeps the first items of every group in the order. -/
theorem leading_filter_mergeSort {keep : α → Bool}
    (keeps : ∀ one ∈ leading group limit [] (items.mergeSort le), keep one = true) :
    leading group limit [] ((items.filter keep).mergeSort le) =
      leading group limit [] (items.mergeSort le) := by
  rw [← filter_mergeSort trans total]
  exact leading_filter group limit (fun _ => rfl) keeps

/-- Surplus in the order has a full group of items that are not after it. -/
theorem leading_of_surplus_mergeSort {one : α}
    (isSurplus : one ∈ surplus group limit [] (items.mergeSort le)) :
    ∃ others : List α,
      others.Sublist (leading group limit [] (items.mergeSort le)) ∧
        others.length = limit ∧
          ∀ other ∈ others, group other = group one ∧ le other one = true := by
  obtain ⟨front, back, sorted, isLeading, isFull⟩ := leading_before_surplus group limit isSurplus
  have ordered := pairwise_mergeSort trans total items
  rw [sorted, pairwise_append] at ordered
  refine
    ⟨(leading group limit [] front).filter fun other => group other == group one,
      filter_sublist.trans isLeading, ?_, ?_⟩
  · rw [List.count, countP_map] at isFull
    rw [← countP_eq_length_filter]
    exact isFull
  · intro other isOther
    obtain ⟨isFront, sameGroup⟩ := mem_filter.mp isOther
    exact
      ⟨beq_iff_eq.mp sameGroup,
        ordered.2.2 other ((leading_sublist group limit [] front).subset isFront) one
          mem_cons_self⟩

end

end IyaSts.GroupLimit
